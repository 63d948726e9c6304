import ScriptGlue.Proofs.Graph.Growth

/-! # What a graph document has to be

A document is looked at in order, and each thing that is looked at has to be something: a list where
things are declared one by one, a text among the kinds there are, a value that can be looked up by
where something is called by it. Four of these demands are checks that tell what they refuse. The
others are made by the operations that need them, and what does not meet one makes the operation
slip. A document is read if it meets all demands, and otherwise faults as the first one that it does
not meet.
-/
namespace ScriptGlue

namespace Graph

/-- How an operation faults on what no check has looked at. -/
inductive Slip where
  | missingKey
  | wrongType
  | missingPart
  | badValue
  | outOfRange
  deriving DecidableEq

def Slip.fault : Slip → Fault
  | .missingKey => .missingKey
  | .wrongType => .wrongType
  | .missingPart => .missingPart
  | .badValue => .badValue
  | .outOfRange => .outOfRange

/-- Something that a document has to be. If it is not, a check tells so or an operation slips. -/
structure Demand where
  met : Bool
  cause : GraphFault ⊕ Slip

namespace Demand

def told (met : Bool) (fault : GraphFault) : Demand := ⟨met, .inl fault⟩

def untold (met : Bool) (slip : Slip) : Demand := ⟨met, .inr slip⟩

def isTold (d : Demand) : Bool := d.cause.isLeft

def fault (d : Demand) : Fault := d.cause.elim .graph Slip.fault

end Demand

def firstUnmet (ds : List Demand) : Option Demand := ds.find? fun d => !d.met

def faultOf {α : Type} : Except Fault α → Option Fault
  | .ok _ => none
  | .error e => some e

/-- The operation does what it does if the demands are met, and else faults as the first one that is
not. -/
def Obeys {α : Type} (r : Except Fault α) (ds : List Demand) : Prop :=
  faultOf r = (firstUnmet ds).map Demand.fault

theorem firstUnmet_append (ds es : List Demand) :
    firstUnmet (ds ++ es) = (firstUnmet ds).or (firstUnmet es) := List.find?_append

namespace Obeys
variable {α β : Type} {r : Except Fault α} {f : α → Except Fault β} {ds es : List Demand}

theorem error (d : Demand) (unmet : d.met = false) : Obeys (.error d.fault : Except Fault α) [d] := by
  simp [Obeys, faultOf, firstUnmet, unmet]

theorem one {d : Demand} (met : d.met = true → ∃ x, r = .ok x)
    (unmet : d.met = false → r = .error d.fault) : Obeys r [d] := by
  cases h : d.met with
  | true =>
    obtain ⟨x, rfl⟩ := met h
    simp [Obeys, faultOf, firstUnmet, h]
  | false =>
    rw [unmet h]
    exact error d h

theorem cons {d : Demand} (met : d.met = true) (h : Obeys r ds) : Obeys r (d :: ds) := by
  rw [Obeys, firstUnmet, List.find?_cons_of_neg (by simp [met])]
  exact h

theorem bind (hr : Obeys r ds) (hf : ∀ x, r = .ok x → Obeys (f x) es) :
    Obeys (r >>= f) (ds ++ es) := by
  unfold Obeys at hr ⊢
  rw [firstUnmet_append]
  cases r with
  | error e =>
    obtain ⟨d, unmet, rfl⟩ := Option.map_eq_some_iff.1 hr.symm
    rw [unmet]
    rfl
  | ok x =>
    rw [Option.map_eq_none_iff.1 hr.symm, Option.none_or]
    exact hf x rfl

theorem map (hr : Obeys r ds) (g : α → β) : Obeys (g <$> r) ds := by
  cases r <;> exact hr

theorem last (hr : Obeys r ds) (g : α → β) : Obeys (r >>= fun x => .ok (g x)) ds := by
  cases r <;> exact hr

theorem mapM {xs : List α} {demands : α → List Demand} (h : ∀ x ∈ xs, Obeys (f x) (demands x)) :
    Obeys (xs.mapM f) (xs.flatMap demands) := by
  induction xs with
  | nil => rfl
  | cons x xs ih =>
    obtain ⟨first, rest⟩ := List.forall_mem_cons.1 h
    rw [List.mapM_cons, List.flatMap_cons]
    exact first.bind fun y _ => (ih rest).last _

end Obeys

/-- Has items: a list, the characters of a text, the keys of an object. -/
def isListed : Value → Bool
  | .list _ | .text _ | .object _ => true
  | _ => false

def listed (v : Value) : Demand := .untold (isListed v) .wrongType

def itemsOf (v : Value) : List Value := ((items v).toOption).getD []

/-- What stands under a key, if anything does, has items. -/
def listedIn (fields : List (String × Value)) (key : String) : Demand :=
  .untold ((fields.lookup key).all isListed) .wrongType

def itemsIn (fields : List (String × Value)) (key : String) : List Value :=
  ((fields.lookup key).map itemsOf).getD []

def keyable (v : Value) : Demand := .untold v.isKey .wrongType

def present (fields : List (String × Value)) (key : String) : Demand :=
  .untold (fields.lookup key).isSome .missingKey

def flagDemands (fields : List (String × Value)) : List Demand :=
  listedIn fields "flags" :: (itemsIn fields "flags").map keyable

def pairDemands (v : Value) : List Demand :=
  listed v :: .untold ((itemsOf v).length = 2) .badValue :: ((itemsOf v).take 1).map keyable

def metadataDemands (fields : List (String × Value)) : List Demand :=
  match fields.lookup "metadata" with
  | none | some (.object _) => []
  | some v => listed v :: (itemsOf v).flatMap pairDemands

def dimensionOf (fields : List (String × Value)) : Except Value.NotWhole Int :=
  ((fields.lookup "array_dim").getD (.int 1)).toWhole

def dimensionDemands (fields : List (String × Value)) : List Demand :=
  [.untold (dimensionOf fields ≠ .error .notNumber) .wrongType,
    .untold (dimensionOf fields ≠ .error .notDecimal) .badValue,
    .untold (dimensionOf fields ≠ .error .infinite) .outOfRange]

theorem obeys_items (v : Value) : Obeys (items v) [listed v] := by
  cases v <;> exact rfl

theorem items_ok {v : Value} {vs : List Value} (h : items v = .ok vs) : vs = itemsOf v := by
  rw [itemsOf, h]
  rfl

theorem obeys_keyed (v : Value) : Obeys v.keyed [keyable v] :=
  .one (fun met => ⟨v, if_pos met⟩) fun unmet => if_neg (by simpa [keyable, Demand.untold] using unmet)

section
variable {α : Type} {fields : List (String × Value)} {key : String}
  {g : List Value → Except Fault α} {ds : List Demand}

theorem obeys_itemsAt (fields : List (String × Value)) (key : String) :
    Obeys (itemsAt fields key) [listedIn fields key] := by
  unfold itemsAt listedIn
  cases fields.lookup key with
  | none => exact rfl
  | some v => exact obeys_items v

theorem itemsAt_ok {vs : List Value} (h : itemsAt fields key = .ok vs) : vs = itemsIn fields key := by
  unfold itemsAt at h
  unfold itemsIn
  split at h
  · next v found =>
    rw [found]
    exact items_ok h
  · next missing =>
    rw [missing]
    cases h
    rfl

theorem obeys_itemsAt_bind (h : Obeys (g (itemsIn fields key)) ds) :
    Obeys (itemsAt fields key >>= g) (listedIn fields key :: ds) :=
  (obeys_itemsAt fields key).bind fun _ read => itemsAt_ok read ▸ h

end

theorem obeys_required (fields : List (String × Value)) (key : String) :
    Obeys (required fields key) [present fields key] := by
  unfold required present
  cases fields.lookup key <;> exact rfl

theorem obeys_mapM_keyed (vs : List Value) : Obeys (vs.mapM Value.keyed) (vs.map keyable) := by
  rw [← List.flatMap_pure_eq_map]
  exact .mapM fun v _ => obeys_keyed v

theorem obeys_readFlags (fields : List (String × Value)) :
    Obeys (readFlags fields) (flagDemands fields) := by
  exact obeys_itemsAt_bind ((obeys_mapM_keyed _).last _)

theorem obeys_readPair (v : Value) : Obeys (readPair v) (pairDemands v) := by
  refine (obeys_items v).bind fun vs read => ?_
  obtain rfl := items_ok read
  match itemsOf v with
  | [] | [_] | _ :: _ :: _ :: _ => exact rfl
  | [key, w] => exact .cons rfl ((obeys_keyed key).last _)

theorem obeys_readMetadata (fields : List (String × Value)) :
    Obeys (readMetadata fields) (metadataDemands fields) := by
  have pairs (v : Value) (g : List (Value × Value) → Metadata) :
      Obeys (items v >>= fun vs => vs.mapM readPair >>= fun entries => .ok (g entries))
        (listed v :: (itemsOf v).flatMap pairDemands) :=
    (obeys_items v).bind fun vs read => by
      rw [items_ok read]
      exact (Obeys.mapM fun v _ => obeys_readPair v).last g
  unfold readMetadata metadataDemands
  cases fields.lookup "metadata" with
  | none => exact rfl
  | some v =>
    cases v with
    | object entries => exact rfl
    | _ => exact pairs _ _

theorem obeys_readDimension (fields : List (String × Value)) :
    Obeys (readDimension fields) (dimensionDemands fields) := by
  unfold readDimension dimensionDemands dimensionOf
  rcases ((fields.lookup "array_dim").getD (.int 1)).toWhole with (_ | _ | _) | n <;> exact rfl

def kindOf? (fields : List (String × Value)) : Option PropertyKind :=
  ((fields.lookup "kind").bind Value.text?).bind PropertyKind.ofLabel?

/-- The list that a field is given, if it counts as present. -/
def atElement {α : Type} (fields : List (String × Value)) (each : List (String × List α))
    (key : String) : List α :=
  match fields.lookup key, each.lookup key with
  | some v, some xs => if v.truthy then xs else []
  | _, _ => []

/-- The demands on a property, given those on each field when it is itself a property. -/
def assembledDemands (owner : Name) (fields : List (String × Value))
    (each : List (String × List Demand)) : List Demand :=
  .told (kindOf? fields).isSome (.badPropertyKind owner ((fields.lookup "name").getD .null)) ::
    present fields "name" :: dimensionDemands fields ++ atElement fields each "inner" ++
    atElement fields each "value" ++ flagDemands fields ++ metadataDemands fields

mutual

def propertyDemands (owner : Name) : Value → List Demand
  | .object fields => assembledDemands owner fields (eachDemands owner fields)
  | _ => [.untold false .wrongType]

def eachDemands (owner : Name) : List (String × Value) → List (String × List Demand)
  | [] => []
  | (key, v) :: rest => (key, propertyDemands owner v) :: eachDemands owner rest

end

theorem obeys_readKind (owner : Name) (fields : List (String × Value)) :
    Obeys (readKind owner fields) [.told (kindOf? fields).isSome
      (.badPropertyKind owner ((fields.lookup "name").getD .null))] := by
  unfold readKind kindOf?
  cases (fields.lookup "kind").bind Value.text? with
  | none => exact rfl
  | some word =>
    simp only [Option.bind_some]
    cases PropertyKind.ofLabel? word <;> exact rfl

section
variable {owner : Name} {fields : List (String × Value)} {key : String}
  {elements : List (String × Except Fault Property)} {each : List (String × List Demand)}

theorem obeys_readElement (h : Option.Rel Obeys (elements.lookup key) (each.lookup key)) :
    Obeys (readElement fields elements key) (atElement fields each key) := by
  unfold readElement atElement
  generalize elements.lookup key = read, each.lookup key = ds at h ⊢
  cases fields.lookup key with
  | none => exact rfl
  | some v =>
    cases h with
    | none => exact rfl
    | some read =>
      simp only
      split
      · exact read.map some
      · exact rfl

theorem obeys_assembleProperty
    (h : ∀ key, Option.Rel Obeys (elements.lookup key) (each.lookup key)) :
    Obeys (assembleProperty owner fields elements) (assembledDemands owner fields each) := by
  simp only [assembledDemands, List.append_assoc, List.cons_append]
  exact (obeys_readKind owner fields).bind fun _ _ => (obeys_required fields "name").bind fun _ _ =>
    (obeys_readDimension fields).bind fun _ _ => (obeys_readElement (h "inner")).bind fun _ _ =>
    (obeys_readElement (h "value")).bind fun _ _ => (obeys_readFlags fields).bind fun _ _ =>
    (obeys_readMetadata fields).last _

end

mutual

theorem obeys_readProperty (owner : Name) :
    ∀ v : Value, Obeys (readProperty owner v) (propertyDemands owner v)
  | .object fields => by
    rw [readProperty, propertyDemands]
    exact obeys_assembleProperty (obeys_readEach owner fields)
  | .null | .bool _ | .int _ | .real _ | .text _ | .list _ => by
    rw [readProperty, propertyDemands]
    all_goals first | rfl | simp

theorem obeys_readEach (owner : Name) : ∀ (fields : List (String × Value)) (key : String),
    Option.Rel Obeys ((readEach owner fields).lookup key) ((eachDemands owner fields).lookup key)
  | [], _ => .none
  | (k, v) :: rest, key => by
    rw [readEach, eachDemands, List.lookup_cons, List.lookup_cons]
    split
    · exact .some (obeys_readProperty owner v)
    · exact obeys_readEach owner rest key

end

def functionDemands (owner : Name) : Value → List Demand
  | .object fields =>
    listedIn fields "params" :: (itemsIn fields "params").flatMap (propertyDemands owner) ++
      present fields "name" :: flagDemands fields ++ metadataDemands fields
  | _ => [.untold false .missingPart]

def propertiesDemands (owner : Name) (fields : List (String × Value)) : List Demand :=
  listedIn fields "properties" :: (itemsIn fields "properties").flatMap (propertyDemands owner)

def bodyDemands (variant : Variant) (owner : Name) (fields : List (String × Value)) : List Demand :=
  match variant with
  | .enum => [listedIn fields "entries"]
  | .struct => propertiesDemands owner fields
  | .plainClass | .interface =>
    propertiesDemands owner fields ++
      listedIn fields "functions" :: (itemsIn fields "functions").flatMap (functionDemands owner) ++
      [listedIn fields "interfaces"]

def valueIn (fields : List (String × Value)) (key : String) : Value :=
  (fields.lookup key).getD .null

def wordOf : Variant → String
  | .plainClass => "class"
  | .interface => "interface"
  | .struct => "struct"
  | .enum => "enum"

def variantOf? (fields : List (String × Value)) : Option Variant :=
  [Variant.plainClass, .interface, .struct, .enum].find? fun variant =>
    valueIn fields "kind" = .text (wordOf variant)

def typeDemands : Value → List Demand
  | .object fields =>
    keyable (valueIn fields "kind") ::
      .told (variantOf? fields).isSome
        (.unknownKind (valueIn fields "kind") (valueIn fields "name")) ::
      .told ((fields.lookup "name").isSome && (fields.lookup "module").isSome)
        (.missingNameOrModule (.object fields)) ::
      keyable (valueIn fields "module") :: flagDemands fields ++
      ((variantOf? fields).map fun variant =>
        bodyDemands variant (valueIn fields "name") fields).getD []
  | _ => [.untold false .missingPart]

def moduleDemands : Value → List Demand
  | .object fields => [present fields "name", keyable (valueIn fields "name")]
  | _ => [.untold false .wrongType]

section
variable {owner : Name} {fields : List (String × Value)}

theorem obeys_readFunction (owner : Name) (v : Value) :
    Obeys (readFunction owner v) (functionDemands owner v) := by
  cases v with
  | object fields =>
    simp only [functionDemands, List.append_assoc, List.cons_append]
    exact obeys_itemsAt_bind <| (Obeys.mapM fun v _ => obeys_readProperty owner v).bind fun _ _ =>
      (obeys_required fields "name").bind fun _ _ => (obeys_readFlags fields).bind fun _ _ =>
      (obeys_readMetadata fields).last _
  | _ => exact rfl

theorem obeys_readClassBody (owner : Name) (fields : List (String × Value)) :
    Obeys (readClassBody owner fields) (bodyDemands .plainClass owner fields) := by
  simp only [bodyDemands, propertiesDemands, List.append_assoc, List.cons_append]
  exact obeys_itemsAt_bind <| (Obeys.mapM fun v _ => obeys_readProperty owner v).bind fun _ _ =>
    obeys_itemsAt_bind <| (Obeys.mapM fun v _ => obeys_readFunction owner v).bind fun _ _ =>
    (obeys_itemsAt fields "interfaces").last _

theorem obeys_readBody (variant : Variant) (owner : Name) (fields : List (String × Value)) :
    Obeys (readBody variant owner fields) (bodyDemands variant owner fields) := by
  cases variant with
  | enum => exact (obeys_itemsAt fields "entries").last _
  | struct =>
    exact obeys_itemsAt_bind ((Obeys.mapM fun v _ => obeys_readProperty owner v).last _)
  | plainClass => exact (obeys_readClassBody owner fields).map _
  | interface => exact (obeys_readClassBody owner fields).map _

theorem obeys_readVariant (fields : List (String × Value)) :
    Obeys (readVariant fields) [keyable (valueIn fields "kind"), .told (variantOf? fields).isSome
      (.unknownKind (valueIn fields "kind") (valueIn fields "name"))] := by
  refine (obeys_keyed (valueIn fields "kind")).bind fun kind keyed => ?_
  obtain rfl := eq_of_keyed keyed
  unfold variantOf?
  generalize valueIn fields "kind" = kind
  split
  iterate 4 exact rfl
  next noClass noInterface noStruct noEnum =>
    simp only [wordOf, List.find?_cons, eq_false noClass, eq_false noInterface, eq_false noStruct,
      eq_false noEnum, decide_false]
    exact rfl

theorem variantOf?_of_ok {variant : Variant} (h : readVariant fields = .ok variant) :
    variantOf? fields = some variant := by
  obtain ⟨kind, keyed, h⟩ := except_bind_eq_ok.1 h
  obtain rfl := eq_of_keyed keyed
  unfold variantOf? valueIn
  split at h <;> cases h <;> simp only [*] <;> rfl

theorem obeys_readType (modules : ModuleTable) (v : Value) :
    Obeys (readType modules v) (typeDemands v) := by
  cases v with
  | object fields =>
    simp only [typeDemands, List.cons_append]
    refine (obeys_readVariant fields).bind fun variant known => ?_
    rw [variantOf?_of_ok known]
    cases hname : fields.lookup "name" with
    | none => exact rfl
    | some name =>
      cases hmodule : fields.lookup "module" with
      | none => exact rfl
      | some moduleName =>
        simp only [valueIn, hname, hmodule]
        refine .cons rfl <| (obeys_keyed moduleName).bind fun key _ => ?_
        exact (obeys_readFlags fields).bind fun _ _ => (obeys_readBody variant name fields).last _
  | _ => exact rfl

theorem obeys_readTypes (modules : ModuleTable) (vs : List Value) :
    Obeys (readTypes modules vs) (vs.flatMap typeDemands) := by
  induction vs generalizing modules with
  | nil => exact rfl
  | cons v rest ih =>
    rw [List.flatMap_cons]
    exact (obeys_readType modules v).bind fun (_, known) _ => (ih known).last _

theorem obeys_readModule (v : Value) : Obeys (readModule v) (moduleDemands v) := by
  cases v with
  | object fields =>
    refine (obeys_required fields "name").bind fun name found => ?_
    obtain rfl : valueIn fields "name" = name := by
      unfold required at found
      split at found
      · next known => cases found; rw [valueIn, known]; rfl
      · cases found
    exact (obeys_keyed _).last _
  | _ => exact rfl

end

mutual

def refNamesOf : Value → List Name
  | .object fields =>
    let refName := (fields.lookup "type").getD (.text "")
    (if refName.truthy then [refName] else []) ++ atElement fields (refNamesOfEach fields) "inner" ++
      atElement fields (refNamesOfEach fields) "value"
  | _ => []

def refNamesOfEach : List (String × Value) → List (String × List Name)
  | [] => []
  | (key, v) :: rest => (key, refNamesOf v) :: refNamesOfEach rest

end

def paramNamesOf : Value → List Name
  | .object fields => (itemsIn fields "params").flatMap refNamesOf
  | _ => []

def linkNamesOf : Value → List Name
  | .object fields =>
    let properties := (itemsIn fields "properties").flatMap refNamesOf
    match variantOf? fields with
    | some .plainClass | some .interface =>
      let super := valueIn fields "super"
      (if super.truthy then super else .text "") :: itemsIn fields "interfaces" ++
        (itemsIn fields "functions").flatMap paramNamesOf ++ properties
    | some .struct => properties
    | _ => []
  | _ => []

def nameOf : Value → Name
  | .object fields => valueIn fields "name"
  | _ => .null

def demands : Value → List Demand
  | .object fields =>
    listedIn fields "modules" :: (itemsIn fields "modules").flatMap moduleDemands ++
      listedIn fields "types" :: (itemsIn fields "types").flatMap typeDemands ++
      ((itemsIn fields "types").map nameOf).map keyable ++
      ((itemsIn fields "types").flatMap linkNamesOf).map keyable
  | _ => [.told false .notMapping]

theorem flatMap_of_mapM {α β : Type} {f : Value → Except Fault α} {vs : List Value} {xs : List α}
    {g : α → List β} {g' : Value → List β} (h : ∀ v x, f v = .ok x → g x = g' v)
    (read : vs.mapM f = .ok xs) : xs.flatMap g = vs.flatMap g' := by
  induction vs generalizing xs with
  | nil =>
    cases read
    rfl
  | cons v vs ih =>
    rw [List.mapM_cons] at read
    obtain ⟨x, first, read⟩ := except_bind_eq_ok.1 read
    obtain ⟨rest, others, read⟩ := except_bind_eq_ok.1 read
    cases read
    rw [List.flatMap_cons, List.flatMap_cons, h v x first, ih others]

def Refers (read : Except Fault Property) (names : List Name) : Prop :=
  ∀ p, read = .ok p → p.refNames = names

section
variable {owner : Name} {fields : List (String × Value)} {key : String}
  {elements : List (String × Except Fault Property)} {each : List (String × List Name)}

theorem readElement_refNames {e : Option Property}
    (refers : Option.Rel Refers (elements.lookup key) (each.lookup key))
    (h : readElement fields elements key = .ok e) :
    elementRefNames e = atElement fields each key := by
  unfold readElement at h
  unfold atElement
  generalize elements.lookup key = read, each.lookup key = names, fields.lookup key = found
    at refers h ⊢
  cases refers with
  | none =>
    cases found <;> cases h <;> rfl
  | @some read names refers =>
    cases found with
    | none =>
      cases h
      rfl
    | some v =>
      simp only at h ⊢
      split at h
      · next present =>
        rw [if_pos present]
        cases read with
        | error e => cases h
        | ok p =>
          cases h
          exact refers p rfl
      · next absent =>
        cases h
        rw [if_neg absent]
        rfl

end

mutual

theorem readProperty_refNames (owner : Name) :
    ∀ v : Value, Refers (readProperty owner v) (refNamesOf v)
  | .object fields, p, h => by
    rw [readProperty] at h
    obtain ⟨_, -, h⟩ := except_bind_eq_ok.1 h
    obtain ⟨_, -, h⟩ := except_bind_eq_ok.1 h
    obtain ⟨_, -, h⟩ := except_bind_eq_ok.1 h
    obtain ⟨inner, hinner, h⟩ := except_bind_eq_ok.1 h
    obtain ⟨value, hvalue, h⟩ := except_bind_eq_ok.1 h
    obtain ⟨_, -, h⟩ := except_bind_eq_ok.1 h
    obtain ⟨_, -, h⟩ := except_bind_eq_ok.1 h
    cases h
    rw [Property.refNames, refNamesOf,
      readElement_refNames (readEach_refNames owner fields "inner") hinner,
      readElement_refNames (readEach_refNames owner fields "value") hvalue]
  | .null, _, h | .bool _, _, h | .int _, _, h | .real _, _, h | .text _, _, h | .list _, _, h => by
    cases h

theorem readEach_refNames (owner : Name) : ∀ (fields : List (String × Value)) (key : String),
    Option.Rel Refers ((readEach owner fields).lookup key) ((refNamesOfEach fields).lookup key)
  | [], _ => .none
  | (k, v) :: rest, key => by
    rw [readEach, refNamesOfEach, List.lookup_cons, List.lookup_cons]
    split
    · exact .some (readProperty_refNames owner v)
    · exact readEach_refNames owner rest key

end

section
variable {owner : Name} {fields : List (String × Value)}

theorem readFunction_refNames {v : Value} {f : Function} (h : readFunction owner v = .ok f) :
    f.params.flatMap Property.refNames = paramNamesOf v := by
  cases v with
  | object fields =>
    obtain ⟨vs, hvs, h⟩ := except_bind_eq_ok.1 h
    obtain ⟨params, hparams, h⟩ := except_bind_eq_ok.1 h
    obtain ⟨_, -, h⟩ := except_bind_eq_ok.1 h
    obtain ⟨_, -, h⟩ := except_bind_eq_ok.1 h
    obtain ⟨_, -, h⟩ := except_bind_eq_ok.1 h
    cases h
    rw [paramNamesOf, ← itemsAt_ok hvs]
    exact flatMap_of_mapM (readProperty_refNames owner) hparams
  | _ => cases h

theorem readClassBody_linkNames {c : ClassBody} (h : readClassBody owner fields = .ok c) :
    c.superName :: c.interfaceNames ++
        (c.functions.flatMap fun f => f.params.flatMap Property.refNames) ++
        c.properties.flatMap Property.refNames =
      (if (valueIn fields "super").truthy then valueIn fields "super" else .text "") ::
        itemsIn fields "interfaces" ++ (itemsIn fields "functions").flatMap paramNamesOf ++
        (itemsIn fields "properties").flatMap refNamesOf := by
  obtain ⟨ps, hps, h⟩ := except_bind_eq_ok.1 h
  obtain ⟨properties, hproperties, h⟩ := except_bind_eq_ok.1 h
  obtain ⟨fs, hfs, h⟩ := except_bind_eq_ok.1 h
  obtain ⟨functions, hfunctions, h⟩ := except_bind_eq_ok.1 h
  obtain ⟨interfaces, hinterfaces, h⟩ := except_bind_eq_ok.1 h
  cases h
  rw [← itemsAt_ok hps, ← itemsAt_ok hfs, ← itemsAt_ok hinterfaces,
    ← flatMap_of_mapM (readProperty_refNames owner) hproperties,
    ← flatMap_of_mapM (fun _ _ => readFunction_refNames) hfunctions, valueIn]
  cases fields.lookup "super" <;> rfl

theorem readBody_linkNames {variant : Variant} {t : TypeNode}
    (known : variantOf? fields = some variant) (h : readBody variant owner fields = .ok t.body) :
    t.linkNames = linkNamesOf (.object fields) := by
  obtain ⟨name, home, flags, body⟩ := t
  simp only [linkNamesOf, known]
  cases variant with
  | enum =>
    obtain ⟨_, -, h⟩ := except_bind_eq_ok.1 h
    cases h
    rfl
  | struct =>
    obtain ⟨vs, hvs, h⟩ := except_bind_eq_ok.1 h
    obtain ⟨ps, hps, h⟩ := except_bind_eq_ok.1 h
    cases h
    exact itemsAt_ok hvs ▸ flatMap_of_mapM (readProperty_refNames owner) hps
  | plainClass =>
    obtain ⟨c, read, rfl⟩ := except_map_eq_ok h
    exact readClassBody_linkNames read
  | interface =>
    obtain ⟨c, read, rfl⟩ := except_map_eq_ok h
    exact readClassBody_linkNames read

theorem readType_names {modules after : ModuleTable} {v : Value} {t : TypeNode}
    (h : readType modules v = .ok (t, after)) :
    t.name = nameOf v ∧ t.linkNames = linkNamesOf v := by
  obtain ⟨fields, key, rfl, described, -⟩ := readType_eq_ok h
  obtain ⟨variant, known, body⟩ := described.body
  exact ⟨by rw [nameOf, valueIn, described.name]; rfl,
    readBody_linkNames (variantOf?_of_ok known) body⟩

theorem readTypes_names {modules after : ModuleTable} {vs : List Value} {ts : List TypeNode}
    (h : readTypes modules vs = .ok (ts, after)) :
    ts.map TypeNode.name = vs.map nameOf ∧
      ts.flatMap TypeNode.linkNames = vs.flatMap linkNamesOf := by
  induction vs generalizing modules ts with
  | nil =>
    cases h
    exact ⟨rfl, rfl⟩
  | cons v vs ih =>
    obtain ⟨⟨t, known⟩, ht, h⟩ := except_bind_eq_ok.1 h
    obtain ⟨⟨rest, all⟩, hrest, h⟩ := except_bind_eq_ok.1 h
    cases h
    obtain ⟨name, links⟩ := readType_names ht
    obtain ⟨names, others⟩ := ih hrest
    exact ⟨by rw [List.map_cons, List.map_cons, name, names],
      by rw [List.flatMap_cons, List.flatMap_cons, links, others]⟩

end

theorem obeys_readDocument (known : ModuleTable) (fields : List (String × Value)) :
    Obeys (readDocument known (.object fields))
      (listedIn fields "modules" :: (itemsIn fields "modules").flatMap moduleDemands ++
        listedIn fields "types" :: (itemsIn fields "types").flatMap typeDemands) := by
  have modules (declarations : List Value) : Obeys (readModules known declarations)
      (declarations.flatMap moduleDemands) := (Obeys.mapM fun v _ => obeys_readModule v).last _
  exact obeys_itemsAt_bind <| (modules _).bind fun declared _ =>
    obeys_itemsAt_bind ((obeys_readTypes declared _).last _)

/-- A document joins a graph if it meets all demands, and faults as the first one that it does not
meet, whatever the graph. -/
theorem obeys_extend (store : TypeStore) (known : Graph) (data : Value) :
    Obeys (extend store known data) (demands data) := by
  cases data with
  | object fields =>
    rw [demands, List.append_assoc]
    refine (obeys_readDocument known.modules fields).bind fun (modules, nodes) read => ?_
    obtain ⟨fields', _, _, vs, same, -, -, hvs, types⟩ := readDocument_eq_ok read
    cases same
    obtain rfl := itemsAt_ok hvs
    obtain ⟨names, links⟩ := readTypes_names types
    rw [← names, ← links]
    exact (obeys_mapM_keyed _).bind fun _ _ => (obeys_mapM_keyed _).last _
  | _ => exact rfl

end Graph
end ScriptGlue
