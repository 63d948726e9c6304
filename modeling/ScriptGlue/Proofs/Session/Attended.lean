import ScriptGlue.Proofs.Session.CarefulExports
import ScriptGlue.Proofs.Session.Operations

/-! # Sessions that are attended to

A property of sessions that a careful invariant carries through a generation outlives every
operation, if reading, files and the question for a layout leave it too. It may depend on a
condition on the types that held of fewer types whenever it holds of more.
-/
namespace ScriptGlue.Session
open ScriptGlue.Action

/-- Neither generations nor the questions about members change the types. -/
theorem lasting_store (σ : TypeStore) :
    Lasting (fun s => s.store = σ) (fun s => s.store = σ) :=
  lasting_of_registry (P := fun τ _ => τ = σ) fun _ _ _ h => h

/-- Where the types satisfy `C`, the careful invariant `K s` leads from `H` of the session `s` to
`H` of later ones with the same types. -/
structure Attended (C : TypeStore → Prop) (H : Session → Prop) (K : Session → Session → Prop) :
    Prop where
  starts : ∀ s, H s → K s s
  ends : ∀ s t, K s t → H t
  attentive : ∀ s, C s.store → Attentive False s.store (K s) fun _ => K s
  layout : ∀ s ref, (∀ id ∈ ref, id < s.store.size) → C s.store → H s →
    H (isStructBlittable ref s).2
  files : ∀ s w, H s → H { s with workspace := w }
  adopted : ∀ s g, (KeysModules s.graph → KeysModules g) → H s → H { s with graph := g }
  fewer : ∀ σ τ, Embeds id σ τ → C τ → C σ
  read : ∀ s read, Embeds id s.store read → H s → H { s with store := read }

namespace Attended
variable {C : TypeStore → Prop} {H : Session → Prop} {K : Session → Session → Prop}
  (h : Attended C H K)
include h

theorem keeps {α : Type} {a : Generation α} (same : ∀ s, (a s).2.store = s.store)
    (tame : ∀ s, C s.store → Tame (K s) (fun _ => K s) a) :
    Keeps (fun s => C s.store → H s) (fun s => C s.store → H s) a := by
  refine .of_outcome fun s hs good => ?_
  rw [same] at good
  rcases run : a s with ⟨e | x, u⟩
  · exact h.ends s u ((tame s good).fault (h.starts s (hs good)) run)
  · exact h.ends s u ((tame s good).result (h.starts s (hs good)) run).2

theorem enduring : Enduring fun s => C s.store → H s := by
  have store (s : Session) := lasting_store s.store
  exact {
    faulted := fun _ hs => hs
    generate := fun forced types => h.keeps (fun s => ((store s).generate forced types).outcome rfl)
      fun s good => (h.attentive s good).generate False.elim False.elim
    visit := fun force id => h.keeps (fun s => ((store s).visit force id).outcome rfl)
      fun s good => (h.attentive s good).visit False.elim force id False.elim
    exportAs := fun form id => by
      have visits (s : Session) (good : C s.store) (force : Bool) (d : TypeId)
          (inside : False → d < s.store.size) :=
        (h.attentive s good).visit False.elim force d inside
      cases form with
      | plainClass =>
        exact h.keeps (fun s => ((store s).exportAs .plainClass id).outcome rfl)
          fun s good => (h.attentive s good).exportClass (visits s good) False.elim False.elim
            False.elim
      | struct =>
        exact h.keeps (fun s => ((store s).exportAs .struct id).outcome rfl)
          fun s good => (h.attentive s good).exportStruct (visits s good) False.elim
      | enum =>
        exact h.keeps (fun s => ((store s).exportAs .enum id).outcome rfl)
          fun s good => (h.attentive s good).exportEnum False.elim False.elim False.elim
      | interface =>
        exact h.keeps (fun s => ((store s).exportAs .interface id).outcome rfl)
          fun s good => (h.attentive s good).exportInterface False.elim False.elim False.elim
    saveModules := h.keeps (fun s => (store s).saveModuleUnits.outcome rfl)
      fun s good => (h.attentive s good).saveModuleUnits
    properties := fun id => h.keeps (fun s => ((store s).exportedProperties id).outcome rfl)
      fun s good => ((h.attentive s good).exportedProperties False.elim).imp fun _ _ => trivial
    functions := fun id => by
      refine h.keeps (fun s => ((Lasting.typeAt id).bind fun t =>
        (store s).exportedFunctions t).outcome rfl) fun s good => ?_
      refine ((h.attentive s good).typeAt id).bind ?_
      rintro t rfl
      exact ((h.attentive s good).exportedFunctions False.elim id).imp fun _ _ => trivial
    layout := fun s ref inside hs => leaves_self.2 fun good => by
      have same : (isStructBlittable ref s).2.store = s.store :=
        ((store s).measured ref).outcome rfl
      rw [same] at good
      exact h.layout s ref inside good (hs good)
    files := fun s w hs good => h.files s w (hs good)
    abandoned := fun s w hs good => h.files s w (hs good)
    adopted := fun s g _ keyed hs good => h.adopted s g keyed (hs good)
    read := fun s known data read linked inside hread hs good => by
      obtain ⟨embeds, -⟩ := Graph.extend_grows linked.store inside hread
      exact h.read s read.store embeds (hs (h.fewer _ _ embeds good)) }

end Attended

end ScriptGlue.Session
