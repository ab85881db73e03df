import Abacus.Proofs.FlatSemantics
import Abacus.Proofs.Frame
import Abacus.Proofs.SortedRun

/-!
# The map that a scope sees

Seen from a scope, a chain of scopes is one map (`Store.view`). What can happen to a store happens to
the map: setting a variable of the scope sets it in the map, and a new scope sees what the scope sees
that it hangs off.

On a machine that is ready for a well-sorted program (`Machine.Ready`), the small steps of the evaluator
cannot fail other than by an undefined variable, so there is an equation for each of them.
-/

namespace Abacus

namespace Json

theorem sameKey_str_iff {t : Text} {name : Name} : name.sameKey (.str t) = true ↔ name = .str t := by
  cases name <;> simp [sameKey]

theorem str_sameKey_iff {t : Text} {name : Name} : (Json.str t).sameKey name = true ↔ name = .str t := by
  cases name with
  | str s => rw [sameKey, beq_iff_eq, str.injEq, eq_comm]
  | _ => simp [sameKey]

end Json

namespace Scope

/-- A name that is put anew is found with its new value, and no other name is touched. -/
theorem find?_putIn (t : Text) (value : Value) (other : Name) (bindings : List (Name × Value)) :
    ((putIn (.str t) value bindings).find? fun (key, _) => key.sameKey other).map (·.2)
      = if other.sameKey (.str t) then some value
        else (bindings.find? fun (key, _) => key.sameKey other).map (·.2) := by
  by_cases same : other.sameKey (.str t) = true
  · -- The first entry of the name is the one that is found, and it has the new value.
    cases Json.sameKey_str_iff.1 same
    rw [if_pos same]
    induction bindings with
    | nil => simp [putIn, Json.sameKey]
    | cons binding bindings ih =>
      obtain ⟨key, old⟩ := binding
      rw [putIn]
      split
      · next here => simp [here]
      · next here => simpa [here] using ih
  · -- Entries of the name do not count, whatever their value.
    rw [if_neg same]
    have differs : (Json.str t).sameKey other = false := by
      rw [Bool.eq_false_iff]
      intro eq
      exact same (Json.sameKey_str_iff.2 (Json.str_sameKey_iff.1 eq))
    induction bindings with
    | nil => simp [putIn, differs]
    | cons binding bindings ih =>
      obtain ⟨key, old⟩ := binding
      rw [putIn]
      split
      · next here =>
        cases Json.sameKey_str_iff.1 here
        simp [differs]
      · cases found : key.sameKey other with
        | true => simp [found]
        | false => simpa [found] using ih

theorem get?_put (scope : Scope) (t : Text) (value : Value) (other : Name) :
    (scope.put (.str t) value).get? other
      = if other.sameKey (.str t) then some value else scope.get? other :=
  find?_putIn t value other scope.bindings

theorem parent_put (scope : Scope) (name : Name) (value : Value) :
    (scope.put name value).parent = scope.parent := rfl

end Scope

namespace Store

/-- All variables, as seen from a scope. -/
def view (s : Store) (id : Nat) : Flat.Env := s.lookup? id

/-- Looking up goes down the numbers, so only scopes up to `id` count. -/
theorem lookup?_congr {s s' : Store} {id : Nat}
    (h : ∀ other ≤ id, s'.scopes[other]? = s.scopes[other]?) (name : Name) :
    s'.lookup? id name = s.lookup? id name := by
  rw [lookup?, lookup?, h id (Nat.le_refl id)]
  cases s.scopes[id]? with
  | none => rfl
  | some scope =>
    dsimp only
    cases scope.get? name with
    | some value => rfl
    | none =>
      dsimp only
      cases scope.parent with
      | none => rfl
      | some parent =>
        dsimp only
        split
        · next lt => exact lookup?_congr (fun other le => h other (by omega)) name
        · rfl
termination_by id

variable {s : Store} {id : Nat}

/-- Setting a variable of a scope sets it in what the scope sees. -/
theorem view_set (exists_ : id < s.scopes.size) (t : Text) (value : Value) :
    (s.set id (.str t) value).view id = (s.view id).set (.str t) value := by
  funext name
  show (s.set id (.str t) value).lookup? id name
    = if name.sameKey (.str t) then some value else s.lookup? id name
  have above {parent : Nat} (lt : parent < id) :
      (s.set id (.str t) value).lookup? parent name = s.lookup? parent name :=
    lookup?_congr (fun other le => by rw [getElem?_set, if_neg (by omega)]) name
  rw [lookup?, lookup?, getElem?_set, if_pos rfl, Array.getElem?_eq_getElem exists_]
  simp only [Option.map_some, Scope.get?_put]
  by_cases same : name.sameKey (.str t) = true
  · simp [same]
  · simp only [same, Bool.false_eq_true, if_false]
    cases s.scopes[id].get? name with
    | some found => rfl
    | none =>
      rw [Scope.parent_put]
      cases s.scopes[id].parent with
      | none => rfl
      | some parent =>
        dsimp only
        split
        · next lt => exact above lt
        · rfl

/-- A new scope sees what the scope sees that it hangs off. -/
theorem view_push (exists_ : id < s.scopes.size) :
    (s.push id).2.view (s.push id).1 = s.view id := by
  funext name
  show (s.push id).2.lookup? s.scopes.size name = s.lookup? id name
  have here : (s.push id).2.scopes[s.scopes.size]? = some ⟨some id, []⟩ := Array.getElem?_push_size
  have others : ∀ other ≤ id, (s.push id).2.scopes[other]? = s.scopes[other]? := fun other le =>
    (Array.getElem?_push_lt (by omega)).trans (Array.getElem?_eq_getElem (by omega)).symm
  rw [lookup?, here]
  show (if id < s.scopes.size then (s.push id).2.lookup? id name else none) = _
  rw [if_pos exists_]
  exact lookup?_congr others name

end Store

/-! ## Machines that are ready -/

/-- A machine on which a well-sorted program can run in a scope: the scope is there, the variables have
values of the vocabulary, and if anything is encoded, then no name has a surrogate. -/
structure Machine.Ready (k : Vocabulary) (scope : Nat) (m : Machine) : Prop where
  store : m.store.Sorted k
  here : scope < m.store.scopes.size
  writable : m.strict = true → k.Plain

theorem Machine.start_ready (k : Vocabulary) (level : Nat) {tracesToFile printsStrictly : Bool}
    (plain : tracesToFile = true ∨ printsStrictly = true → k.Plain) :
    (start level tracesToFile printsStrictly).Ready k Store.globalId := by
  refine ⟨Store.sorted_initial k, show 1 < 2 by decide, fun strict => plain ?_⟩
  rcases Bool.or_eq_true_iff.1 strict with prints | traces
  · exact .inr prints
  · exact .inl (Bool.and_eq_true_iff.1 traces).1

/-- A trace line later. -/
def Machine.told (m : Machine) (line : TraceLine) : Machine := { m with trace := m.trace.tell line }

namespace Machine.Ready

variable {α : Type} {k : Vocabulary} {scope : Nat} {m : Machine}

theorem sorted (h : m.Ready k scope) : m.Sorted k m.strict := ⟨h.store, rfl⟩

/-- A sound computation that is confined to its scope leaves the machine ready. -/
theorem after (h : m.Ready k scope) {Q : α → Prop} {p : Eval α} (sound : Eval.Sound k m.strict Q p)
    (confined : Eval.Confined scope p) : (p m).2.Ready k scope := by
  have size := (confined m).size
  have fine := sound m h.sorted
  have sorted : (p m).2.Sorted k m.strict := by
    generalize p m = outcome at fine ⊢
    cases fine with
    | value _ sorted => exact sorted
    | fault _ sorted => exact sorted
  refine ⟨sorted.store, size ▸ h.here, fun strict => h.writable (sorted.strict ▸ strict)⟩

theorem told (h : m.Ready k scope) (line : TraceLine) : (m.told line).Ready k scope := by
  refine ⟨h.store, h.here, fun strict => h.writable ?_⟩
  rwa [Machine.strict, Machine.told, Trace.filing_tell] at strict

theorem set (h : m.Ready k scope) (name : Name) {v : Value} (hv : v.Sorted k) :
    Machine.Ready k scope { m with store := m.store.set scope name v } :=
  ⟨h.store.set scope name hv, by simpa [Store.set] using h.here, h.writable⟩

theorem push (h : m.Ready k scope) : Machine.Ready k (m.store.push scope).1
    { m with store := (m.store.push scope).2 } :=
  ⟨h.store.push scope, by simp [Store.push], h.writable⟩

theorem view_set (h : m.Ready k scope) {name : Name} (named : k.Names name) (value : Value) :
    (m.store.set scope name value).view scope = (m.store.view scope).set name value := by
  cases named
  exact Store.view_set h.here _ value

end Machine.Ready

namespace Eval

variable {α β : Type} {k : Vocabulary} {scope : Nat} {m m' : Machine}

theorem putting_eq {encodes : Bool} {text : Option Text}
    (plain : encodes = true → ∀ t ∈ text, t.Plain) (put : Machine → Machine) :
    putting (if encodes then text else none) put m = (.ok (), put m) := by
  have nothing : (if encodes then text else none).bind Text.surrogates? = none := by
    cases encodes with
    | false => rfl
    | true =>
      cases text with
      | none => rfl
      | some t => exact (plain rfl t rfl).surrogates?_eq_none
  rw [putting, nothing]

section Ready

variable (h : m.Ready k scope)

include h

theorem tell_eq {line : TraceLine} (sorted : line.Sorted k) : tell line m = (.ok (), m.told line) := by
  refine putting_eq (fun files t ht => ?_) fun m => m.told line
  cases ht
  refine sorted.text_plain (h.writable ?_)
  rw [Machine.strict, (Bool.and_eq_true_iff.1 files).1, Bool.or_true]

theorem write_eq {text : Option Text} (plain : k.Plain → ∀ t ∈ text, t.Plain) :
    write text m = (.ok (), { m with printed := text.toList ++ m.printed }) := by
  refine putting_eq (fun strictly => plain (h.writable ?_))
    fun m => { m with printed := text.toList ++ m.printed }
  rw [Machine.strict, strictly, Bool.true_or]

theorem native_ok {op : NativeOp} {arguments : List Value} (sorted : ∀ v ∈ arguments, v.Sorted k)
    {value : Value} {text : Option Text} (computed : op.call arguments = .ok (value, text)) :
    native op arguments m = (.ok value, { m with printed := text.toList ++ m.printed }) := by
  have plain : k.Plain → ∀ t ∈ text, t.Plain := (call_sorted sorted computed).2
  rw [native, computed]
  exact bind_of_ok (write_eq h plain) _

end Ready

theorem native_error {op : NativeOp} {arguments : List Value} {fault : OperandFault}
    (failed : op.call arguments = .error fault) :
    native op arguments m = (.error (.operand fault), m) := by
  rw [native, failed]
  rfl

theorem lookup_some {name : Name} (named : k.Names name) {value : Value}
    (bound : m.store.view scope name = some value) : lookup scope name m = (.ok value, m) := by
  cases named
  have found : m.store.lookup? scope _ = some value := bound
  rw [lookup, if_pos (by rfl), found]

theorem lookup_none {name : Name} (named : k.Names name) (free : m.store.view scope name = none) :
    lookup scope name m = (.error (.undefined name), m) := by
  cases named
  have found : m.store.lookup? scope _ = none := free
  rw [lookup, if_pos (by rfl), found]

theorem assign_eq {name : Name} (named : k.Names name) (value : Value) :
    assign scope name value m = (.ok (), { m with store := m.store.set scope name value }) := by
  cases named
  rfl

theorem checkKeys_eq {names : List Name} (named : ∀ name ∈ names, k.Names name) :
    checkKeys names m = (.ok (), m) := by
  induction names with
  | nil => rfl
  | cons name names ih =>
    cases named name List.mem_cons_self
    exact ih fun name mem => named name (List.mem_cons_of_mem _ mem)

theorem checkTexts_eq {names : List Name} (named : ∀ name ∈ names, k.Names name) (index : Nat) :
    checkTexts index names m = (.ok (), m) := by
  induction names generalizing index with
  | nil => rfl
  | cons name names ih =>
    cases named name List.mem_cons_self
    exact ih (fun name mem => named name (List.mem_cons_of_mem _ mem)) (index + 1)

/-- Setting variables lays them over the map. -/
theorem bindAll_eq (h : m.Ready k scope) {bindings : List (Name × Value)}
    (sorted : ∀ b ∈ bindings, k.Names b.1 ∧ b.2.Sorted k) :
    ∃ s, bindAll scope bindings m = (.ok (), { m with store := s }) ∧
      Machine.Ready k scope { m with store := s } ∧
      s.view scope = (m.store.view scope).overlay bindings := by
  induction bindings generalizing m with
  | nil => exact ⟨m.store, rfl, h, rfl⟩
  | cons binding bindings ih =>
    obtain ⟨name, value⟩ := binding
    obtain ⟨named, hv⟩ := sorted _ List.mem_cons_self
    obtain ⟨s, eq, ready, view⟩ :=
      ih (h.set name hv) fun b mem => sorted b (List.mem_cons_of_mem _ mem)
    refine ⟨s, (bind_of_ok (assign_eq named value) _).trans eq, ready, view.trans ?_⟩
    show Flat.Env.overlay ((m.store.set scope name value).view scope) bindings = _
    rw [h.view_set named]
    rfl

/-- Declaring a function sets it. -/
theorem declare_eq (h : m.Ready k scope) {name : Name} {params : List Name} {body : Node}
    (named : k.Names name) (hp : ∀ p ∈ params, k.Names p) (block : body.IsBlock k) :
    declare scope name params body m
      = (.ok (), Machine.told { m with store := m.store.set scope name (.function name params body) }
          (.define name params)) := by
  have told := tell_eq (h.set name (.function named hp block)) (.define named hp)
  refine (bind_of_ok (assign_eq named _) _).trans ?_
  refine (bind_of_ok rfl _).trans ?_
  split
  · exact (bind_of_ok (checkTexts_eq hp 0) _).trans told
  · exact told

/-- The value of a body is what its block returns. -/
theorem body_eq {bindings : List (Name × Value)} (eq : bindAll scope bindings m = (.ok (), m'))
    (execute : Node → Eval (Option Value)) (body : Node) :
    (do
      bindAll scope bindings
      let returned ← runBlock execute body
      return returned.getD .void : Eval Value) m
      = (Flat.bodyValue (runBlock execute body m').1, (runBlock execute body m').2) := by
  refine (bind_of_ok eq _).trans ?_
  cases ended : (runBlock execute body m').1 with
  | error fault => exact bind_of_error (Prod.ext ended rfl) _
  | ok returned => exact bind_of_ok (Prod.ext ended rfl) _

/-- A call runs the body on a machine whose new scope sees the map of the caller with the parameters
laid over it. -/
theorem callFunction_eq (h : m.Ready k scope) {params : List Name} {arguments : List Value}
    (hp : ∀ p ∈ params, k.Names p) (ha : ∀ v ∈ arguments, v.Sorted k)
    (count : arguments.length = params.length) :
    ∃ inner : Machine, inner.Ready k m.store.scopes.size ∧ inner.printed = m.printed ∧
      inner.store.view m.store.scopes.size
        = (m.store.view scope).overlay (params.zip arguments) ∧
      ∀ execute name body,
        let outcome := runBlock (execute · m.store.scopes.size) body inner
        callFunction execute name params body arguments scope m
          = (Flat.bodyValue outcome.1, { outcome.2 with store := outcome.2.store.pop }) := by
  obtain ⟨s, eq, ready, view⟩ := bindAll_eq h.push (forall_mem_zip hp ha)
  refine ⟨{ m with store := s }, ready, rfl, view.trans ?_, fun execute name body => ?_⟩
  · show Flat.Env.overlay ((m.store.push scope).2.view (m.store.push scope).1) _ = _
    rw [Store.view_push h.here]
  · intro outcome
    rw [callFunction, if_pos count]
    refine (bind_of_ok (checkKeys_eq hp) _).trans ?_
    rw [inNewScope]
    dsimp only
    rw [body_eq eq]
    rfl

end Eval

end Abacus
