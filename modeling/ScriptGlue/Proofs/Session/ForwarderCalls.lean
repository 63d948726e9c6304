import ScriptGlue.Proofs.Action
import ScriptGlue.Proofs.Code.PrintedLines
import ScriptGlue.Proofs.ReceiverChoice
import ScriptGlue.Session.Unit

/-! # Calls of forwarders

A forwarder calls the wrapper of its function: it passes an argument for each parameter of the
wrapper, and all but the receiver are passed as the wrapper declares them. The receiver is called
`self` and passed by value, whatever the wrapper says of it and whatever the other parameters are
called.
-/
namespace ScriptGlue
open ScriptGlue.Action

/-- How a parameter is passed, and what it is called. -/
def Parameter.sign (q : Parameter) : Passing × String := (q.passing, q.name)

namespace Session

variable {s t u v : Session} {e : ExtensionMethod} {f : Function} {p : Property}

def signOf (p : Property) : Passing × String := (passing p, parameterText p)

def argumentOf (p : Property) : String := (passing p).text ++ parameterText p

theorem sign_of_parameter {q : Parameter} (h : parameter p s = (.ok q, t)) :
    q.sign = signOf p := by
  obtain ⟨type, _, -, h⟩ := bind_eq_ok.1 h
  obtain ⟨name, _, hname, h⟩ := bind_eq_ok.1 h
  obtain ⟨named, rfl⟩ := ofExcept_eq_ok.1 hname
  obtain ⟨rfl, -⟩ := pure_eq_ok.1 h
  rw [Parameter.sign, signOf, parameterText, named, textOf]

theorem arguments_of_signs {ps : List Property} {qs : List Parameter}
    (h : qs.map Parameter.sign = ps.map signOf) : ps.map argumentOf = qs.map Parameter.argument := by
  have same := congrArg (List.map fun x : Passing × String => x.1.text ++ x.2) h
  rw [List.map_map, List.map_map] at same
  exact same.symm

theorem names_of_signs {ps qs : List Parameter} (h : ps.map Parameter.sign = qs.map Parameter.sign) :
    ps.map Parameter.name = qs.map Parameter.name := by
  simpa [Parameter.sign, Function.comp_def] using congrArg (List.map Prod.snd) h

/-- The text declares the parameter in the header of a member. -/
def Declares (p : Property) (text : String) : Prop :=
  ∃ type, text = (passing p).text ++ type ++ " " ++ parameterText p

def MakesParameter (p : Property) (q : Parameter) : Prop :=
  q.sign = signOf p ∧ Declares p q.declaration

theorem made_parameters {ps : List Property} {qs : List Parameter}
    (h : ps.mapM parameter s = (.ok qs, t)) : List.Forall₂ MakesParameter ps qs :=
  (mapM_eq_ok h).imp fun p q ⟨_, _, made⟩ => by
    have sign := sign_of_parameter made
    have passed : q.passing = passing p := congrArg Prod.fst sign
    have named : q.name = parameterText p := congrArg Prod.snd sign
    exact ⟨sign, q.type, by rw [Parameter.declaration, passed, named]⟩

theorem signs_of_made {ps : List Property} {qs : List Parameter}
    (h : List.Forall₂ MakesParameter ps qs) : qs.map Parameter.sign = ps.map signOf := by
  symm
  rw [← List.forall₂_eq_eq_eq, List.forall₂_map_left_iff, List.forall₂_map_right_iff]
  exact h.imp fun p q made => made.1.symm

theorem declarations_of_made {ps : List Property} {qs : List Parameter}
    (h : List.Forall₂ MakesParameter ps qs) :
    List.Forall₂ Declares ps (qs.map Parameter.declaration) :=
  List.forall₂_map_right_iff.2 (h.imp fun _ _ made => made.2)

theorem wrapper_ok {owner : Name} {w : Wrapper} (h : wrapper f owner s = (.ok w, t)) :
    (∃ name, functionName f owner = .ok name ∧ w.name = name.plain) ∧
      List.Forall₂ MakesParameter f.arguments w.parameters := by
  obtain ⟨name, _, hname, h⟩ := bind_eq_ok.1 h
  obtain ⟨named, rfl⟩ := ofExcept_eq_ok.1 hname
  obtain ⟨_, _, -, h⟩ := bind_eq_ok.1 h
  obtain ⟨parameters, _, shown, h⟩ := bind_eq_ok.1 h
  split at h
  all_goals
    obtain ⟨_, _, -, h⟩ := bind_eq_ok.1 h
    obtain ⟨rfl, -⟩ := pure_eq_ok.1 h
    exact ⟨⟨name, named, rfl⟩, made_parameters shown⟩

theorem forwarder_ok {made : Forwarder} (h : forwarder e s = (.ok made, t)) :
    (∃ name, functionName e.function (scriptName (s.store.type e.library)) = .ok name ∧
        made.name = name.plain) ∧
      List.Forall₂ MakesParameter (e.function.argumentsBut e.receiver.position) made.parameters ∧
      made.arguments = e.function.positioned.map fun (p, i) => forwarded e p i := by
  obtain ⟨node, _, hnode, h⟩ := bind_eq_ok.1 h
  cases hnode
  obtain ⟨name, _, hname, h⟩ := bind_eq_ok.1 h
  obtain ⟨named, rfl⟩ := ofExcept_eq_ok.1 hname
  obtain ⟨_, _, -, h⟩ := bind_eq_ok.1 h
  obtain ⟨parameters, _, shown, h⟩ := bind_eq_ok.1 h
  obtain ⟨_, _, -, h⟩ := bind_eq_ok.1 h
  obtain ⟨_, _, -, h⟩ := bind_eq_ok.1 h
  obtain ⟨rfl, -⟩ := pure_eq_ok.1 h
  exact ⟨⟨name, named, rfl⟩, made_parameters shown, rfl⟩

theorem receiver_by_value (passing : Passing) :
    Forwarder.receiverName = passing.text ++ Forwarder.receiverName ↔ passing = .value := by
  cases passing <;> decide

/-- The forwarder of an extension method calls the wrapper of its function by name. It passes an
argument for each parameter of the wrapper, in their order: the receiver, and every other one just as
the wrapper declares it, under a name that it declares itself. So the call is what the wrapper asks
for if and only if the wrapper takes the receiver by value, and the names of the forwarder are apart
if and only if those of the wrapper are and no parameter but the receiver is called `self`. The
headers of both and the line of the call are printed so. -/
theorem forwarder_calls_wrapper {world : Option Name} {w : Wrapper} {made : Forwarder}
    (resolved : Receiver.resolve world e.function = some e.receiver)
    (emitted : wrapper e.function (scriptName (t.store.type e.library)) s = (.ok w, u))
    (forwards : forwarder e t = (.ok made, v)) :
    made.name = w.name ∧ ∃ early receiver late, w.parameters = early ++ receiver :: late ∧
      made.arguments = early.map Parameter.argument ++
        Forwarder.receiverName :: late.map Parameter.argument ∧
      made.parameters.map Parameter.sign = (early ++ late).map Parameter.sign ∧
      (made.arguments = early.map Parameter.argument ++
          (receiver.passing.text ++ Forwarder.receiverName) :: late.map Parameter.argument ↔
        receiver.passing = .value) ∧
      ((w.parameters.map Parameter.name).Nodup →
        ((Forwarder.receiverName :: made.parameters.map Parameter.name).Nodup ↔
          ∀ q ∈ early ++ late, q.name ≠ Forwarder.receiverName)) ∧
      (∃ before, w.code = before ++ Code.braced
        ((if w.isStatic then "public static " else "public ") ++ w.returnType ++ " " ++ w.name ++
          "(" ++ Parameter.printed w.parameters ++ ")") w.body) ∧
      ∃ shown, List.Forall₂ Declares (e.function.argumentsBut e.receiver.position) shown ∧
        made.code = Code.braced
          ("public static " ++ made.returnType ++ " " ++ w.name ++ "(" ++
            String.intercalate ", " (("this " ++ made.receiverType ++ " self") :: shown) ++ ")")
          [.line ((if made.returnsValue then "return " else "") ++ made.library ++ "." ++ w.name ++
            "(" ++ String.intercalate ", " (early.map Parameter.argument ++
              "self" :: late.map Parameter.argument) ++ ");")] := by
  obtain ⟨before, p, after, split, position, argument⟩ := Receiver.split_of_resolve resolved
  obtain ⟨⟨name, named, shown⟩, takes⟩ := wrapper_ok emitted
  obtain ⟨⟨name', named', shown'⟩, takes', passed⟩ := forwarder_ok forwards
  have signs := signs_of_made takes
  rw [Function.arguments_of_split split argument, List.map_append, List.map_cons] at signs
  obtain ⟨early, rest, parameters, first, signs⟩ := List.map_eq_append_iff.1 signs
  obtain ⟨receiver, late, rfl, here, last⟩ := List.map_eq_cons_iff.1 signs
  have plain (q : Property) (i : Nat) (away : i ≠ before.length) :
      forwarded e q i = argumentOf q := by rw [forwarded, ← position, if_neg away, argumentOf]
  have received : forwarded e p before.length = Forwarder.receiverName := by
    rw [forwarded, if_pos position]
  rw [Function.map_positioned split argument plain, arguments_of_signs first,
    arguments_of_signs last] at passed
  simp only [received] at passed
  have declared : made.parameters.map Parameter.sign = (early ++ late).map Parameter.sign := by
    rw [signs_of_made takes', ← position, Function.argumentsBut_of_split split argument, List.map_append,
      List.map_append, first, last]
  cases named.symm.trans named'
  have name : made.name = w.name := shown'.trans shown.symm
  refine ⟨name, early, receiver, late, parameters, passed, declared, ?_, fun nodup => ?_,
    w.code_printed, _, declarations_of_made takes', ?_⟩
  · rw [passed, List.append_cancel_left_eq, List.cons.injEq, receiver_by_value,
      and_iff_left rfl]
  · have apart : ((early ++ late).map Parameter.name).Nodup := by
      refine nodup.sublist ?_
      rw [parameters]
      exact ((List.sublist_cons_self _ _).append_left _).map _
    rw [names_of_signs declared, List.nodup_cons, and_iff_left apart]
    simp only [List.mem_map, not_exists, not_and]
  · rw [made.code_printed, name, passed]
    rfl

/-- A method on a parameter that is passed by reference, with another one called `Self`. -/
def selfishMethod : ExtensionMethod where
  function :=
    { name := .text "F"
      params := [
        { name := .text "Target", kind := .bool, owner := .text "F",
          flags := [.text (Flag.label .out), .text (Flag.label .byReference)] },
        { name := .text "Self", kind := .int32, owner := .text "F" }]
      flags := [.text (Flag.label .static)]
      metadata := [(.text "ScriptMethod", .text "")]
      owner := .text "L" }
  receiver := { position := 0, override := none }
  library := 0

def selfishSession : Session where
  packaging := { scriptsDir := .text "out" }
  store := #[{ name := .text "L", home := { name := .text "M" },
               body := .plainClass { functions := [selfishMethod.function] } }]

theorem selfishSession_makes :
    (match wrapper selfishMethod.function (scriptName (selfishSession.store.type 0)) selfishSession,
        forwarder selfishMethod selfishSession with
    | (.ok w, _), (.ok made, _) => w.parameters.map Parameter.argument == ["ref target", "self"] &&
      w.parameters.map Parameter.name == ["target", "self"] &&
      made.arguments == ["self", "self"] && made.parameters.map Parameter.name == ["self"]
    | _, _ => false) = true := by decide +kernel

/-- A forwarder need not be a call that its wrapper takes: here the wrapper asks for a reference and
is passed a value, and two parameters of the forwarder have one name. -/
theorem receiver_loses_reference : ∃ w made u v,
    Receiver.resolve (some Receiver.worldClass) selfishMethod.function =
        some selfishMethod.receiver ∧
      wrapper selfishMethod.function (scriptName (selfishSession.store.type 0)) selfishSession =
        (.ok w, u) ∧ forwarder selfishMethod selfishSession = (.ok made, v) ∧
      w.parameters.map Parameter.argument = ["ref target", "self"] ∧
      made.arguments = ["self", "self"] ∧ (w.parameters.map Parameter.name).Nodup ∧
      ¬(Forwarder.receiverName :: made.parameters.map Parameter.name).Nodup := by
  have makes := selfishSession_makes
  split at makes
  · next w u made v emitted forwards =>
    simp only [Bool.and_eq_true, beq_iff_eq] at makes
    obtain ⟨⟨⟨arguments, names⟩, passed⟩, declared⟩ := makes
    exact ⟨w, made, u, v, by decide +kernel, emitted, forwards, arguments, passed,
      by rw [names]; decide, by rw [declared]; decide⟩
  · cases makes

theorem forwarder_calls_wrapper_of_selfish : ∃ w made u v early receiver late,
    wrapper selfishMethod.function (scriptName (selfishSession.store.type 0)) selfishSession =
        (.ok w, u) ∧ forwarder selfishMethod selfishSession = (.ok made, v) ∧
      made.name = w.name ∧ w.parameters = early ++ receiver :: late ∧
      made.arguments = early.map Parameter.argument ++
        Forwarder.receiverName :: late.map Parameter.argument ∧
      made.parameters.map Parameter.sign = (early ++ late).map Parameter.sign := by
  have makes := selfishSession_makes
  split at makes
  · next w u made v emitted forwards =>
    have resolved : Receiver.resolve (some Receiver.worldClass) selfishMethod.function =
        some selfishMethod.receiver := by decide +kernel
    obtain ⟨name, early, receiver, late, parameters, passed, declared, -⟩ :=
      forwarder_calls_wrapper resolved emitted forwards
    exact ⟨w, made, u, v, early, receiver, late, emitted, forwards, name, parameters, passed,
      declared⟩
  · cases makes

end Session

end ScriptGlue
