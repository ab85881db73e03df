import Mathlib
import Abacus.Tree.Decode
import Abacus.Tree.Encode

/-!
# Trees come back from JSON

Reading undoes writing: a tree that is written as JSON is read back as it was, whatever stands in it for
a name (`Node.decode_encodeWith`). The reader is more liberal than the writer. It takes texts and truth
values for numbers, texts and objects for lists, and fields that nobody asks for. But all that is gone
once the tree is there, so what is read, written and read again is the same tree as before, and reading
and writing makes every accepted value into one that it leaves alone.
-/

namespace Abacus

@[simp] theorem Text.ofString_inj {s t : String} : ofString s = ofString t ↔ s = t := by
  refine ⟨fun h => ?_, congrArg ofString⟩
  have read := congrArg toString? h
  rw [toString?_ofString, toString?_ofString] at read
  exact Option.some.inj read

namespace DecodeFault

variable {α β : Type}

@[simp] theorem pure_eq_ok (a : α) : (pure a : Except DecodeFault α) = .ok a := rfl

@[simp] theorem ok_bind (a : α) (f : α → Except DecodeFault β) : (Except.ok a >>= f) = f a := rfl

end DecodeFault

/-! ## Fields -/

namespace Json

variable {members : List (Text × Json)} {value : Json}

@[simp] theorem lookup?_cons (k key : Text) :
    lookup? key ((k, value) :: members) = if k = key then some value else lookup? key members := rfl

@[simp] theorem word?_str (s : String) : word? (.str s) = some s := Text.toString?_ofString s

/-- A field that is there is read. -/
@[simp] theorem field_bind {α : Type} {key : String} (h : lookup? key members = some value)
    (f : { value : Json // sizeOf value < sizeOf members } → Except DecodeFault α) :
    (field members key >>= f) = f ⟨value, sizeOf_lookup? h⟩ := by
  have read : field members key = .ok ⟨value, sizeOf_lookup? h⟩ := by
    unfold field
    split
    · next found =>
      cases h.symm.trans found
      rfl
    · next missing => cases h.symm.trans missing
  rw [read, DecodeFault.ok_bind]

end Json

/-! ## Trees -/

namespace Node

@[simp] theorem decodeList_arr (items : List Json) : decodeList (.arr items) = decodeItems items := by
  rw [decodeList]

-- One case for each kind of node: its tag and its fields are found, and its parts come back.
mutual

/-- Decoding undoes encoding, if doubles are put into the tree as they are. -/
theorem decode_encodeWith : ∀ node : Node, decode (encodeWith .float node) = .ok node
  | .block statements => by
    rw [encodeWith, decode]
    simp [tag, decodeItems_encodeItems statements]
  | .assignment target value => by
    rw [encodeWith, decode]
    simp [tag, decode_encodeWith value]
  | .returns value => by
    rw [encodeWith, decode]
    simp [tag, decode_encodeWith value]
  | .expression value => by
    rw [encodeWith, decode]
    simp [tag, decode_encodeWith value]
  | .function name params body => by
    rw [encodeWith, decode]
    simp [tag, Json.toList, decode_encodeWith body]
  | .branch arms => by
    rw [encodeWith, decode]
    -- both lists have one item for each arm, so they are as long as each other
    simp [tag, decodeItems_encodeConditions arms, decodeItems_encodeBodies arms, List.zip_map']
  | .loop condition body => by
    rw [encodeWith, decode]
    simp [tag, decode_encodeWith condition, decode_encodeWith body]
  | .empty => by
    rw [encodeWith, decode]
    simp [tag]
  | .reference name => by
    rw [encodeWith, decode]
    simp [tag]
  | .float x => by
    rw [encodeWith, decode]
    simp [tag, Json.toDouble]
  | .int n => by
    rw [encodeWith, decode]
    simp [tag, Json.toInteger]
  | .bool b => by
    rw [encodeWith, decode]
    simp [tag, Json.isTrue]
  | .call callee arguments => by
    rw [encodeWith, decode]
    simp [tag, decodeItems_encodeItems arguments]

theorem decodeItems_encodeItems : ∀ nodes : List Node,
    decodeItems (encodeItems .float nodes) = .ok nodes
  | [] => by
    rw [encodeItems, decodeItems]
    rfl
  | node :: nodes => by
    rw [encodeItems, decodeItems, decode_encodeWith node, decodeItems_encodeItems nodes]
    rfl

theorem decodeItems_encodeConditions : ∀ arms : List (Node × Node),
    decodeItems (encodeConditions .float arms) = .ok (arms.map Prod.fst)
  | [] => by
    rw [encodeConditions, decodeItems]
    rfl
  | (condition, _) :: arms => by
    rw [encodeConditions, decodeItems, decode_encodeWith condition, decodeItems_encodeConditions arms]
    rfl

theorem decodeItems_encodeBodies : ∀ arms : List (Node × Node),
    decodeItems (encodeBodies .float arms) = .ok (arms.map Prod.snd)
  | [] => by
    rw [encodeBodies, decodeItems]
    rfl
  | (_, body) :: arms => by
    rw [encodeBodies, decodeItems, decode_encodeWith body, decodeItems_encodeBodies arms]
    rfl

end

theorem encode_injective : Function.Injective encode := by
  intro a b same
  have read : decode a.encode = decode b.encode := congrArg decode same
  exact Except.ok.inj ((decode_encodeWith a).symm.trans (read.trans (decode_encodeWith b)))

end Node

/-- A tree that is read and written again. -/
def Json.rewritten (json : Json) : Except DecodeFault Json := (Node.decode json).map Node.encode

theorem Json.rewritten_rewritten (json : Json) : (json.rewritten >>= rewritten) = json.rewritten := by
  unfold rewritten
  cases Node.decode json with
  | error fault => rfl
  | ok node =>
    have read : Node.decode node.encode = .ok node := node.decode_encodeWith
    show (Node.decode node.encode).map Node.encode = .ok node.encode
    rw [read]
    rfl

namespace Node

/-- Whatever JSON value holds a tree, well-formed or not, writing that tree and reading it again gives the
same tree; and so does writing and reading any tree at all. So what has been read and written once is
left alone by doing it again, and no two trees are written alike. -/
theorem decoding_undoes_encoding :
    (∀ (json : Json) (node : Node), decode json = .ok node → decode node.encode = .ok node) ∧
    (∀ node : Node, decode node.encode = .ok node) ∧
    (∀ json : Json, (json.rewritten >>= Json.rewritten) = json.rewritten) ∧
    Function.Injective encode :=
  ⟨fun _ node _ => node.decode_encodeWith, decode_encodeWith, Json.rewritten_rewritten,
    encode_injective⟩

/-- A function with a number for a name and a text for its parameters, a literal that is spelt out, a
branch whose lists are a text and an object, and a field that no node has. -/
def misspelt : Json := .obj [("statements", .arr [
    .obj [("type", .str "FunctionDecl"), ("name", .int 7), ("params", .str "ab"),
      ("body", .obj [("value", .str " 1_0 "), ("type", .str "IntLiteral"), ("note", .null)])],
    .obj [("type", .str "If"), ("conditions", .str ""), ("branches", .obj [])]]),
  ("type", .str "Block")]

/-- The tree that it holds. -/
def wellSpelt : Node :=
  .block [.function (.int 7) [.str "a", .str "b"] (.int 10), .branch []]

theorem decoding_undoes_encoding_misspelt :
    decode misspelt = .ok wellSpelt ∧ decode wellSpelt.encode = .ok wellSpelt ∧
      misspelt.rewritten = .ok wellSpelt.encode := by
  have numeral : Numeral.readInt " 1_0 " = .ok 10 := by cbv
  have letters : Json.toList (.str "ab") = .ok [.str "a", .str "b"] := rfl
  have nothing : Text.isEmpty "" = true := rfl
  have read : decode misspelt = .ok wellSpelt := by
    simp [misspelt, wellSpelt, decode, decodeItems, decodeList, letters, nothing, Json.toInteger, numeral]
  exact ⟨read, decoding_undoes_encoding.1 misspelt wellSpelt read, congrArg (Except.map encode) read⟩

end Node

end Abacus
