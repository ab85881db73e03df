import Mathlib.Data.List.TakeWhile
import Abacus.Eval.Interpreter

/-!
# Well-sorted programs

A tree from a file can have anything anywhere. In a well-sorted one there is a statement where a
statement is due, an expression where a value is due and a block where a body is due, and every name is
a text. What else its names and integers are is left to a `Vocabulary`, and so is whether the values of
its variables are only those that scripts compute.

Texts with surrogates cannot go to a file. If no name of the vocabulary has one, then nothing that a
well-sorted program prints or tells has one (`Value.Sorted.text_plain`).
-/

namespace Abacus

/-! ## Texts without surrogates -/

namespace Text

/-- A text that a file can hold. -/
def Plain (t : Text) : Prop := ∀ p ∈ t.points, p.isSurrogate = false

instance (t : Text) : Decidable t.Plain := inferInstanceAs (Decidable (∀ p ∈ t.points, _))

theorem Plain.surrogates?_eq_none {t : Text} (h : t.Plain) : t.surrogates? = none := by
  have none_left : t.points.dropWhile (!·.isSurrogate) = [] :=
    List.dropWhile_eq_nil_iff.2 fun p hp => by simp [h p hp]
  rw [surrogates?, none_left]

theorem plain_ofString (s : String) : (ofString s).Plain := by
  intro p hp
  obtain ⟨c, -, rfl⟩ := List.mem_map.1 hp
  simp [CodePoint.isSurrogate]

theorem Plain.append {a b : Text} (ha : a.Plain) (hb : b.Plain) : (a ++ b).Plain := by
  intro p hp
  rcases List.mem_append.1 hp with hp | hp
  · exact ha p hp
  · exact hb p hp

theorem Plain.intercalate {between : Text} (hb : between.Plain) {texts : List Text}
    (h : ∀ t ∈ texts, t.Plain) : (Text.intercalate between texts).Plain := by
  fun_induction Text.intercalate between texts with
  | case1 => exact nofun
  | case2 text => exact h text List.mem_cons_self
  | case3 text texts _ ih =>
    have first : text.Plain := h text List.mem_cons_self
    exact (first.append hb).append (ih fun t ht => h t (List.mem_cons_of_mem _ ht))

/-- One half of a surrogate pair, on its own. -/
def loneSurrogate : Text := ⟨[.ofNat 0xD800]⟩

end Text

/-! ## Trees -/

/-- What programs may be made of, and their values. -/
structure Vocabulary where
  name : Text → Prop
  integer : Int → Prop
  /-- Whether there are values that no script computes. -/
  foreign : Prop
  integer_of_fits : ∀ {n : Int}, fitsInt32 n = true → integer n

namespace Vocabulary

/-- A name is a text of the vocabulary. -/
inductive Names (k : Vocabulary) : Name → Prop
  | str {t : Text} (mem : k.name t) : Names k (.str t)

/-- No name has a surrogate. -/
def Plain (k : Vocabulary) : Prop := ∀ t, k.name t → t.Plain

end Vocabulary

namespace Node

inductive IsExpression (k : Vocabulary) : Node → Prop
  | int {n} (mem : k.integer n) : IsExpression k (.int n)
  | float {x} : IsExpression k (.float x)
  | bool {b} : IsExpression k (.bool b)
  | reference {name} (named : k.Names name) : IsExpression k (.reference name)
  | call {callee es} (named : k.Names callee) (arguments : ∀ e ∈ es, IsExpression k e) :
      IsExpression k (.call callee es)

mutual

inductive IsStatement (k : Vocabulary) : Node → Prop
  | assignment {target e} (named : k.Names target) (value : IsExpression k e) :
      IsStatement k (.assignment target e)
  | expression {e} (value : IsExpression k e) : IsStatement k (.expression e)
  | returns {e} (value : IsExpression k e) : IsStatement k (.returns e)
  | function {name ps b} (named : k.Names name) (params : ∀ p ∈ ps, k.Names p) (body : IsBlock k b) :
      IsStatement k (.function name ps b)
  | branch {arms} (conditions : ∀ arm ∈ arms, IsExpression k arm.1)
      (bodies : ∀ arm ∈ arms, IsBlock k arm.2) : IsStatement k (.branch arms)
  | loop {c b} (condition : IsExpression k c) (body : IsBlock k b) : IsStatement k (.loop c b)
  | empty : IsStatement k .empty

inductive IsBlock (k : Vocabulary) : Node → Prop
  | block {statements} (each : ∀ s ∈ statements, IsStatement k s) : IsBlock k (.block statements)

end

end Node

/-! ## Values -/

/-- A value of the vocabulary. A function is one if its declaration is well-sorted. -/
inductive Value.Sorted (k : Vocabulary) : Value → Prop
  | int {n} (mem : k.integer n) : Sorted k (.int n)
  | float {x} : Sorted k (.float x)
  | void : Sorted k .void
  | builtin {op} : Sorted k (.builtin op)
  | function {name ps b} (named : k.Names name) (params : ∀ p ∈ ps, k.Names p)
      (body : b.IsBlock k) : Sorted k (.function name ps b)
  | bool {b} (foreign : k.foreign) : Sorted k (.bool b)
  | error {name message} (foreign : k.foreign) : Sorted k (.error name message)
  | returned {v} (foreign : k.foreign) (value : Sorted k v) : Sorted k (.returned v)

/-- All variables have values of the vocabulary. -/
def Store.Sorted (k : Vocabulary) (s : Store) : Prop :=
  ∀ (id : Nat) (scope : Scope), s.scopes[id]? = some scope → ∀ b ∈ scope.bindings, b.2.Sorted k

/-- A trace line about names and values of the vocabulary. -/
inductive TraceLine.Sorted (k : Vocabulary) : TraceLine → Prop
  | define {name ps} (named : k.Names name) (params : ∀ p ∈ ps, k.Names p) : Sorted k (.define name ps)
  | assign {name v} (named : k.Names name) (value : v.Sorted k) : Sorted k (.assign name v)
  | ifCondition {v} (value : v.Sorted k) : Sorted k (.ifCondition v)
  | whileCondition {v} (value : v.Sorted k) : Sorted k (.whileCondition v)
  | lookup {name v} (named : k.Names name) (value : v.Sorted k) : Sorted k (.lookup name v)
  | call {name n} (named : k.Names name) : Sorted k (.call name n)

namespace Store

variable {k : Vocabulary} {s : Store}

theorem sorted_initial (k : Vocabulary) : Store.initial.Sorted k := by
  intro id scope eq b hb
  match id, eq with
  | 0, eq =>
    cases eq
    obtain ⟨op, -, rfl⟩ := List.mem_map.1 hb
    exact .builtin
  | 1, eq =>
    cases eq
    cases hb

theorem Sorted.lookup? (h : s.Sorted k) {id : Nat} {name : Name} {v : Value}
    (found : s.lookup? id name = some v) : v.Sorted k := by
  fun_induction Store.lookup? s id name with
  | case1 => cases found
  | case2 id scope eq value here =>
    cases found
    obtain ⟨b, hb, rfl⟩ := Option.map_eq_some_iff.1 here
    exact h id scope eq b (List.mem_of_find?_eq_some hb)
  | case3 _ _ _ _ _ _ _ ih => exact ih found
  | case4 => cases found
  | case5 => cases found

theorem mem_putIn {name : Name} {value : Value} {bindings : List (Name × Value)} {b : Name × Value}
    (h : b ∈ Scope.putIn name value bindings) : b.2 = value ∨ b ∈ bindings := by
  induction bindings with
  | nil =>
    cases List.mem_singleton.1 h
    exact .inl rfl
  | cons first bindings ih =>
    obtain ⟨key, old⟩ := first
    rw [Scope.putIn] at h
    split at h
    · rcases List.mem_cons.1 h with rfl | h
      · exact .inl rfl
      · exact .inr (List.mem_cons_of_mem _ h)
    · rcases List.mem_cons.1 h with rfl | h
      · exact .inr List.mem_cons_self
      · exact (ih h).imp_right (List.mem_cons_of_mem _)

theorem Sorted.set (h : s.Sorted k) (id : Nat) (name : Name) {v : Value} (hv : v.Sorted k) :
    (s.set id name v).Sorted k := by
  intro other scope eq b hb
  have eq' : (s.scopes.modify id fun scope => scope.put name v)[other]? = some scope := eq
  rw [Array.getElem?_modify] at eq'
  split at eq'
  · obtain ⟨old, found, rfl⟩ := Option.map_eq_some_iff.1 eq'
    rcases mem_putIn hb with rfl | hb
    · exact hv
    · exact h other old found b hb
  · exact h other scope eq' b hb

theorem Sorted.push (h : s.Sorted k) (parent : Nat) : (s.push parent).2.Sorted k := by
  intro id scope eq b hb
  have eq' : (s.scopes.push ⟨some parent, []⟩)[id]? = some scope := eq
  rw [Array.getElem?_push] at eq'
  split at eq'
  · cases eq'
    cases hb
  · exact h id scope eq' b hb

theorem Sorted.pop (h : s.Sorted k) : s.pop.Sorted k := by
  intro id scope eq b hb
  have eq' : s.scopes.pop[id]? = some scope := eq
  rw [Array.getElem?_pop] at eq'
  split at eq'
  · exact h id scope eq' b hb
  · cases eq'

end Store

/-! ## Texts of values and lines -/

section Plain

variable {k : Vocabulary} (plain : k.Plain)

include plain

theorem Vocabulary.Names.display_plain {name : Name} (h : k.Names name) : name.display.Plain := by
  cases h with
  | str mem => exact plain _ mem

theorem Value.Sorted.shown_plain {v : Value} (h : v.Sorted k) : v.shown.Plain := by
  have words := Text.plain_ofString
  induction h with
  | function named _ _ => exact ((words _).append (named.display_plain plain)).append (words _)
  | builtin => exact ((words _).append (words _)).append (words _)
  | @bool b _ => cases b <;> exact words _
  | error _ => exact ((((words _).append (words _)).append (words _)).append (words _)).append (words _)
  | returned _ _ ih => exact ((words _).append ih).append (words _)
  | _ => exact words _

theorem Value.Sorted.text_plain {v : Value} (h : v.Sorted k) : v.text.Plain := by
  cases v with
  | int n => exact Text.plain_ofString _
  | bool b => cases b <;> exact Text.plain_ofString _
  | float x => exact Text.plain_ofString _
  | void => exact Text.plain_ofString _
  | _ => exact h.shown_plain plain

theorem TraceLine.Sorted.text_plain {line : TraceLine} (h : line.Sorted k) : line.text.Plain := by
  have words := Text.plain_ofString
  cases h with
  | define named params =>
    have listed : (Text.intercalate ", " (_ : List Text)).Plain := .intercalate (words _) fun t ht => by
      obtain ⟨p, mem, rfl⟩ := List.mem_map.1 ht
      exact (params p mem).display_plain plain
    exact ((((words _).append (named.display_plain plain)).append (words _)).append listed).append
      (words _)
  | assign named value =>
    exact (((((words _).append (named.display_plain plain)).append (words _)).append (words _)).append
      (words _)).append (value.text_plain plain)
  | ifCondition value =>
    exact (((words _).append (value.text_plain plain)).append (words _)).append (words _)
  | whileCondition value =>
    exact (((words _).append (value.text_plain plain)).append (words _)).append (words _)
  | lookup named value =>
    exact (((words _).append (named.display_plain plain)).append (words _)).append
      (value.text_plain plain)
  | call named =>
    exact ((((words _).append (named.display_plain plain)).append (words _)).append (words _)).append
      (words _)

end Plain

end Abacus
