import Mathlib
import Abacus.Proofs.OneLine

/-!
# Names in messages

Four messages splice a text as it is: that of an unknown tag, and those of a name that is undefined, that
is no function or that was given the wrong number of arguments (`Report.Splices`). Every other report
stands on one line. So a report stands on one line, or a text with a line break is spliced
(`Report.Tells`). Where a tree is decoded from a JSON value, such a text stands in the value, and so does
every name of the tree that a message can show (`Node.Named`).
-/

namespace Abacus

/-- The reports that show a text as it is. -/
inductive Report.Splices (t : Text) : Report → Prop
  | unknownTag : Splices t (.host "ValueError" ("Unknown AST node type: " ++ t))
  | undefined : Splices t (.script "NameError" ("undefined variable " ++ t))
  | notCallable : Splices t (.script "TypeError" (t ++ " is not a function or built-in function"))
  | argumentCount (expected given : Nat) : Splices t (.script "TypeError"
      (t ++ " expects " ++ toString expected ++ " arguments, got " ++ toString given))

/-- A report that stands on one line, unless a text that may be said has a line break. -/
def Report.Tells (said : Text → Prop) (r : Report) : Prop :=
  r.OneLine ∨ ∃ t, said t ∧ ¬ t.OneLine ∧ r.Splices t

theorem Report.Tells.mono {said said' : Text → Prop} {r : Report} (h : r.Tells said)
    (imp : ∀ t, said t → said' t) : r.Tells said' :=
  h.imp_right fun ⟨t, mem, rest⟩ => ⟨t, imp t mem, rest⟩

/-- A name that is a text which may be said. -/
def Name.Said (said : Text → Prop) (name : Name) : Prop := ∀ t, name = .str t → said t

/-- A value that is shown is quoted, or it is a text. -/
theorem Report.tells_display {said : Text → Prop} {json : Json} (report : Text → Report)
    (spoken : Name.Said said json) (splices : ∀ t, (report t).Splices t)
    (oneLine : ∀ {t : Text}, t.OneLine → (report t).OneLine) : (report json.display).Tells said := by
  rcases json.oneLine_display with calm | ⟨t, rfl, broken⟩
  · exact .inl (oneLine calm)
  · exact .inr ⟨t, spoken t rfl, broken, splices t⟩

/-! ## Trees -/

/-- The text stands in the value, be it as a part of it. -/
inductive Json.Holds (t : Text) : Json → Prop
  | here : Holds t (.str t)
  | item {items item} (mem : item ∈ items) (inside : Holds t item) : Holds t (.arr items)
  | member {members key value} (mem : (key, value) ∈ members) (inside : Holds t value) :
      Holds t (.obj members)

/-- A tree in which every name that a message can show may be said. -/
inductive Node.Named (said : Text → Prop) : Node → Prop
  | block {statements} (each : ∀ s ∈ statements, Named said s) : Named said (.block statements)
  | assignment {target e} (value : Named said e) : Named said (.assignment target e)
  | returns {e} (value : Named said e) : Named said (.returns e)
  | expression {e} (value : Named said e) : Named said (.expression e)
  | function {name params body} (name_said : Name.Said said name) (inside : Named said body) :
      Named said (.function name params body)
  | branch {arms} (conditions : ∀ arm ∈ arms, Named said arm.1)
      (bodies : ∀ arm ∈ arms, Named said arm.2) : Named said (.branch arms)
  | loop {condition body} (test : Named said condition) (inside : Named said body) :
      Named said (.loop condition body)
  | empty : Named said .empty
  | reference {name} (name_said : Name.Said said name) : Named said (.reference name)
  | float {x} : Named said (.float x)
  | int {n} : Named said (.int n)
  | bool {b} : Named said (.bool b)
  | call {callee es} (name_said : Name.Said said callee) (arguments : ∀ e ∈ es, Named said e) :
      Named said (.call callee es)

theorem Node.Named.mono {said said' : Text → Prop} (imp : ∀ t, said t → said' t) {node : Node}
    (h : node.Named said) : node.Named said' := by
  have name {name : Name} (h : Name.Said said name) : Name.Said said' name := fun t eq => imp t (h t eq)
  induction h with
  | block _ each => exact .block each
  | assignment _ value => exact .assignment value
  | returns _ value => exact .returns value
  | expression _ value => exact .expression value
  | function name_said _ inside => exact .function (name name_said) inside
  | branch _ _ conditions bodies => exact .branch conditions bodies
  | loop _ _ test inside => exact .loop test inside
  | empty => exact .empty
  | reference name_said => exact .reference (name name_said)
  | float => exact .float
  | int => exact .int
  | bool => exact .bool
  | call name_said _ arguments => exact .call (name name_said) arguments

namespace Json

theorem oneLine_kindName (json : Json) : Abacus.OneLine json.kindName.toList := by
  unfold kindName
  split <;> decide +kernel

theorem mem_of_lookup? {key : Text} {members : List (Text × Json)} {value : Json}
    (h : lookup? key members = some value) : (key, value) ∈ members := by
  induction members with
  | nil => cases h
  | cons member members ih =>
    obtain ⟨k, v⟩ := member
    rw [lookup?] at h
    split at h
    · next same =>
      cases h
      cases same
      exact List.mem_cons_self
    · exact List.mem_cons_of_mem _ (ih h)

end Json

theorem DecodeFault.oneLine_notList (value : Json) :
    (DecodeFault.notList value.kindName).report.OneLine := by
  simp only [report, Report.oneLine_summary, Report.name, Report.message, Text.oneLine_append,
    Text.oneLine_ofString, value.oneLine_kindName]
  decide +kernel

theorem DecodeFault.tells_unknownTag {said : Text → Prop} {tag : Json} (tag_said : Name.Said said tag) :
    (DecodeFault.unknownTag tag).report.Tells said := by
  refine Report.tells_display (fun t => .host "ValueError" ("Unknown AST node type: " ++ t)) tag_said
    (fun _ => .unknownTag) fun calm => ?_
  simp only [Report.oneLine_summary, Report.name, Report.message, Text.oneLine_append,
    Text.oneLine_ofString, calm]
  decide +kernel

/-- What comes of decoding: something with `P`, or a fault that is told. -/
inductive Decoded {α : Type} (said : Text → Prop) (P : α → Prop) : Except DecodeFault α → Prop
  | ok {a} (holds : P a) : Decoded said P (.ok a)
  | error {fault : DecodeFault} (tells : fault.report.Tells said) : Decoded said P (.error fault)

namespace Decoded

variable {α β : Type} {said said' : Text → Prop} {P P' : α → Prop} {Q : β → Prop}

theorem bind {x : Except DecodeFault α} {f : α → Except DecodeFault β} (hx : Decoded said P x)
    (hf : ∀ a, P a → Decoded said Q (f a)) : Decoded said Q (x >>= f) := by
  cases hx with
  | ok holds => exact hf _ holds
  | error tells => exact .error tells

theorem mono {x : Except DecodeFault α} (hx : Decoded said P x) (imp : ∀ t, said t → said' t)
    (imp' : ∀ a, P a → P' a) : Decoded said' P' x := by
  cases hx with
  | ok holds => exact .ok (imp' _ holds)
  | error tells => exact .error (tells.mono imp)

/-- A fault whose report has nothing but fixed words and quoted texts. -/
theorem of_oneLine {fault : DecodeFault} (h : fault.report.OneLine) : Decoded said P (.error fault) :=
  .error (.inl h)

end Decoded

namespace Json

variable {said : Text → Prop}

/-- What stands in a field stands in the object. -/
theorem decoded_field_bind {β : Type} {Q : β → Prop} {members : List (Text × Json)} {key : String}
    {f : { value : Json // sizeOf value < sizeOf members } → Except DecodeFault β}
    (next : ∀ value smaller, (∀ t, Holds t value → Holds t (.obj members)) →
      Decoded said Q (f ⟨value, smaller⟩)) : Decoded said Q (field members key >>= f) := by
  unfold field
  split
  · next found => exact next _ _ fun t inside => .member (mem_of_lookup? found) inside
  · refine .of_oneLine ?_
    simp only [DecodeFault.report, Report.oneLine_summary, Report.name, Report.message,
      Text.oneLine_ofString, oneLine_quoted]
    decide +kernel

theorem decoded_toList (json : Json) : Decoded said (fun _ => True) json.toList := by
  unfold toList
  split
  any_goals exact .ok trivial
  exact .of_oneLine (DecodeFault.oneLine_notList _)

theorem decoded_toDouble (json : Json) : Decoded said (fun _ => True) json.toDouble := by
  unfold toDouble
  split
  · exact .ok trivial
  · split
    · exact .ok trivial
    · exact .of_oneLine (by decide +kernel)
  · exact .ok trivial
  · split
    · exact .ok trivial
    · refine .of_oneLine ?_
      simp only [DecodeFault.report, Report.oneLine_summary, Report.name, Report.message,
        Text.oneLine_append, Text.oneLine_ofString, oneLine_quoted]
      decide +kernel
  · refine .of_oneLine ?_
    simp only [DecodeFault.report, Report.oneLine_summary, Report.name, Report.message,
      Text.oneLine_append, Text.oneLine_ofString, oneLine_kindName]
    decide +kernel

theorem decoded_toInteger (json : Json) : Decoded said (fun _ => True) json.toInteger := by
  unfold toInteger
  split
  · exact .ok trivial
  · exact .ok trivial
  · split
    · exact .of_oneLine (by decide +kernel)
    · split
      · exact .of_oneLine (by decide +kernel)
      · exact .ok trivial
  · next s =>
    split
    · exact .ok trivial
    · have cut : Abacus.OneLine ((quoted s).toList.take 200) :=
        (oneLine_quoted s).of_subset (List.take_subset _ _)
      refine .of_oneLine ?_
      simp only [DecodeFault.report, Report.oneLine_summary, Report.name, Report.message,
        Text.oneLine_append, Text.oneLine_ofString, String.toList_ofList, cut]
      decide +kernel
    · exact .of_oneLine (oneLine_tooManyDigits _ _)
  · refine .of_oneLine ?_
    simp only [DecodeFault.report, Report.oneLine_summary, Report.name, Report.message,
      Text.oneLine_append, Text.oneLine_ofString, oneLine_kindName]
    decide +kernel

end Json

namespace Node

open Json (Holds decoded_field_bind decoded_toList decoded_toDouble decoded_toInteger)

theorem decoded_notObject {α : Type} {said : Text → Prop} {P : α → Prop} :
    Decoded said P (.error .notObject) := .of_oneLine (by decide +kernel)

section Object

variable {members : List (Text × Json)}
  (decodeNode : ∀ value, sizeOf value < sizeOf members →
    Decoded (Holds · value) (Named (Holds · value)) (decode value))
  (decodeNodes : ∀ value, sizeOf value < sizeOf members → Decoded (Holds · value)
    (fun nodes => ∀ n ∈ nodes, Named (Holds · value) n) (decodeList value))

include decodeNode decodeNodes

/-- Every field is a part of the object, so what stands in the field stands in the object. -/
theorem decoded_obj :
    Decoded (Holds · (.obj members)) (Named (Holds · (.obj members))) (decode (.obj members)) := by
  have node {value : Json} (held : ∀ t, Holds t value → Holds t (.obj members))
      (smaller : sizeOf value < sizeOf members) :
      Decoded (Holds · (.obj members)) (Named (Holds · (.obj members))) (decode value) :=
    (decodeNode value smaller).mono held fun _ named => named.mono held
  have list {value : Json} (held : ∀ t, Holds t value → Holds t (.obj members))
      (smaller : sizeOf value < sizeOf members) : Decoded (Holds · (.obj members))
        (fun nodes => ∀ n ∈ nodes, Named (Holds · (.obj members)) n) (decodeList value) :=
    (decodeNodes value smaller).mono held fun _ named n mem => (named n mem).mono held
  have text {value : Json} (held : ∀ t, Holds t value → Holds t (.obj members)) :
      ∀ t, value = .str t → Holds t (.obj members) := by
    rintro t rfl
    exact held t .here
  rw [decode]
  split
  · refine decoded_field_bind fun statements smaller held => ?_
    exact (list held smaller).bind fun _ named => .ok (.block named)
  · refine decoded_field_bind fun target _ _ => ?_
    refine decoded_field_bind fun value smaller held => ?_
    exact (node held smaller).bind fun _ named => .ok (.assignment named)
  · refine decoded_field_bind fun value smaller held => ?_
    exact (node held smaller).bind fun _ named => .ok (.returns named)
  · refine decoded_field_bind fun value smaller held => ?_
    exact (node held smaller).bind fun _ named => .ok (.expression named)
  · refine decoded_field_bind fun name _ said => ?_
    refine decoded_field_bind fun params _ _ => ?_
    refine (decoded_toList params).bind fun _ _ => ?_
    refine decoded_field_bind fun body smaller held => ?_
    exact (node held smaller).bind fun _ named => .ok (.function (text said) named)
  · refine decoded_field_bind fun conditions smaller held => ?_
    refine (list held smaller).bind fun conditions named => ?_
    refine decoded_field_bind fun branches smaller' held' => ?_
    refine (list held' smaller').bind fun branches named' => ?_
    split
    · refine .ok (.branch ?_ ?_)
      · exact fun arm mem => named arm.1 (List.of_mem_zip mem).1
      · exact fun arm mem => named' arm.2 (List.of_mem_zip mem).2
    · exact .of_oneLine (by decide +kernel)
  · refine decoded_field_bind fun condition smaller held => ?_
    refine (node held smaller).bind fun _ named => ?_
    refine decoded_field_bind fun body smaller' held' => ?_
    exact (node held' smaller').bind fun _ named' => .ok (.loop named named')
  · exact .ok .empty
  · exact decoded_field_bind fun name _ said => .ok (.reference (text said))
  · refine decoded_field_bind fun value _ _ => ?_
    exact (decoded_toDouble value).bind fun _ _ => .ok .float
  · refine decoded_field_bind fun value _ _ => ?_
    exact (decoded_toInteger value).bind fun _ _ => .ok .int
  · exact decoded_field_bind fun _ _ _ => .ok .bool
  · refine decoded_field_bind fun callee _ said => ?_
    refine decoded_field_bind fun arguments smaller held => ?_
    exact (list held smaller).bind fun _ named => .ok (.call (text said) named)
  · refine .error (DecodeFault.tells_unknownTag fun t tagged => ?_)
    cases found : Json.lookup? "type" members with
    | none =>
      rw [found] at tagged
      cases tagged
    | some tag =>
      rw [found] at tagged
      cases tagged
      exact .member (Json.mem_of_lookup? found) .here

end Object

mutual

theorem decoded_decode (json : Json) :
    Decoded (Holds · json) (Named (Holds · json)) (decode json) := by
  cases json with
  | obj members =>
    exact decoded_obj (fun value _ => decoded_decode value) fun value _ => decoded_decodeList value
  | _ =>
    rw [decode]
    · exact decoded_notObject
    · exact nofun
termination_by sizeOf json

/-- The items of an array are decoded one by one, and whatever stands in one stands in the array. -/
theorem decoded_decodeList (json : Json) : Decoded (Holds · json)
    (fun nodes => ∀ n ∈ nodes, Named (Holds · json) n) (decodeList json) := by
  cases json with
  | arr items =>
    rw [decodeList]
    exact decoded_decodeItems items _ fun item mem t inside => .item mem inside
  | str s =>
    rw [decodeList]
    split
    · exact .ok (List.forall_mem_nil _)
    · exact decoded_notObject
  | obj members =>
    rw [decodeList]
    split
    · exact .ok (List.forall_mem_nil _)
    · exact decoded_notObject
  | _ =>
    rw [decodeList]
    · exact .of_oneLine (DecodeFault.oneLine_notList _)
    · exact nofun
    · exact nofun
    · exact nofun
termination_by sizeOf json

/-- By recursion on the items, up to the first that cannot be decoded. -/
theorem decoded_decodeItems (items : List Json) (said : Text → Prop)
    (held : ∀ item ∈ items, ∀ t, Holds t item → said t) :
    Decoded said (fun nodes => ∀ n ∈ nodes, Named said n) (decodeItems items) := by
  cases items with
  | nil =>
    rw [decodeItems]
    exact .ok (List.forall_mem_nil _)
  | cons item items =>
    obtain ⟨here, later⟩ := List.forall_mem_cons.1 held
    have first := (decoded_decode item).mono here fun _ named => named.mono here
    rw [decodeItems]
    refine first.bind fun node named => ?_
    exact (decoded_decodeItems items said later).bind fun nodes named' =>
      .ok (List.forall_mem_cons.2 ⟨named, named'⟩)
termination_by sizeOf items

end

end Node

end Abacus
