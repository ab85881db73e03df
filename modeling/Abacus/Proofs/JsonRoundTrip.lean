import Mathlib
import Abacus.Proofs.JsonScalars

/-!
# JSON that is read back

A value that is written, on one line or spread over lines, is read back as it was (`Json.parse_write`), if
it does not nest too deeply, its doubles are read back from their own texts, its strings have no
surrogates, and its objects have every key once. Lists and objects are read part by part: the text of a
part ends where a comma, a line or the list ends, and between the parts there are only spaces.
-/

namespace Abacus

namespace Json

variable {α : Type}

/-! ## Parts between brackets -/

/-- What a value can begin with: no space, no closing bracket and no byte order mark. -/
def opensValue (x : Char) : Bool := !isSpace x && x != ']' && x != '\x7d' && x != '\ufeff'

theorem isSpace_of_opensValue {x : Char} (h : opensValue x = true) : isSpace x = false := by
  simp only [opensValue, Bool.and_eq_true, Bool.not_eq_true'] at h
  exact h.1.1.1

/-- The beginning of a value. -/
def Begins (text : List Char) : Prop := ∃ x more, text = x :: more ∧ opensValue x = true

theorem Begins.head {text more : List Char} (begins : Begins text) :
    ∀ x ∈ (text ++ more).head?, opensValue x = true := by
  obtain ⟨first, others, rfl, opens⟩ := begins
  rintro x ⟨⟩
  exact opens

section Parts

variable {part : (c : Cursor) → Except JsonFault (Scanned α c.size)} {close : Char} {bound : Nat}
  {done : List α} {c : Cursor} {h : c.size ≤ bound} {first : α} {spaces rest : List Char}

/-- The last part, and the end. -/
theorem scanParts_last (reads : Reads (part c) first (spaces ++ close :: rest))
    (blank : ∀ x ∈ spaces, isSpace x = true) (stops : isSpace close = false) :
    Reads (scanParts part close done c h) (done.reverse ++ [first]) rest := by
  obtain ⟨found, scanned, rfl, left⟩ := reads
  have next : found.next.skipSpaces.rest = close :: rest := by
    refine rest_skipSpaces left blank ?_
    rintro x ⟨⟩
    exact stops
  unfold scanParts
  rw [scanned]
  simp only [next, List.head?_cons, if_true]
  exact ⟨_, rfl, List.reverse_cons, by simp [Cursor.drop, next]⟩

/-- A part, and the comma before the next one. -/
theorem scanParts_comma {value : List α} {more : List Char}
    (reads : Reads (part c) first (',' :: (spaces ++ more))) (blank : ∀ x ∈ spaces, isSpace x = true)
    (closes : close ≠ ',') (stops : ∀ x ∈ more.head?, isSpace x = false)
    (next : ∀ (c' : Cursor) (h' : c'.size ≤ bound), c'.rest = more →
      Reads (scanParts part close (first :: done) c' h') value rest) :
    Reads (scanParts part close done c h) value rest := by
  obtain ⟨found, scanned, rfl, left⟩ := reads
  have comma : found.next.skipSpaces.rest = ',' :: (spaces ++ more) := by
    refine rest_skipSpaces (left.trans (List.nil_append _).symm) (List.forall_mem_nil _) ?_
    rintro x ⟨⟩
    rfl
  have after : (found.next.skipSpaces.drop 1).skipSpaces.rest = more := by
    refine rest_skipSpaces ?_ blank stops
    simp [Cursor.drop, comma]
  unfold scanParts
  rw [scanned]
  have other : ¬ ',' = close := fun same => closes same.symm
  simp only [comma, List.head?_cons, Option.some.injEq, other, if_false, if_true]
  exact next _ _ after

end Parts

/-- How the parts of a list or an object are read, one and all. -/
structure Legible (part : (c : Cursor) → Except JsonFault (Scanned α c.size)) (write : α → List Char)
    (items : List α) : Prop where
  begins : ∀ a ∈ items, Begins (write a)
  reads : ∀ a ∈ items, ∀ (c : Cursor) (rest : List Char), Ends rest → c.rest = write a ++ rest →
    Reads (part c) a rest

/-- The spaces that layouts use. -/
def isGap (x : Char) : Bool := x == ' ' || x == '\n'

theorem isSpace_of_isGap {x : Char} (h : isGap x = true) : isSpace x = true := by
  simp only [isGap, Bool.or_eq_true, beq_iff_eq] at h
  rcases h with rfl | rfl <;> rfl

/-- What stands between the parts of a list or an object, before the first and after the last. -/
structure Gaps where
  lead : List Char
  gap : List Char
  tail : List Char
  lead_isGap : ∀ x ∈ lead, isGap x = true
  gap_isGap : ∀ x ∈ gap, isGap x = true
  tail_isGap : ∀ x ∈ tail, isGap x = true
  /-- After the last part, the list ends or the line does. -/
  tail_head : ∀ x ∈ tail.head?, x = '\n'

namespace Gaps

/-- Parts with these gaps, up to the closing bracket. -/
def between (gaps : Gaps) (texts : List (List Char)) : List Char :=
  List.intercalate (',' :: gaps.gap) texts ++ gaps.tail

theorem between_singleton (gaps : Gaps) (text : List Char) : gaps.between [text] = text ++ gaps.tail := by
  simp [between]

theorem between_cons (gaps : Gaps) (text next : List Char) (texts : List (List Char)) :
    gaps.between (text :: next :: texts) = text ++ ',' :: (gaps.gap ++ gaps.between (next :: texts)) := by
  simp [between, List.intercalate_cons_cons]

theorem lead_blank (gaps : Gaps) : ∀ x ∈ gaps.lead, isSpace x = true :=
  fun x mem => isSpace_of_isGap (gaps.lead_isGap x mem)

theorem gap_blank (gaps : Gaps) : ∀ x ∈ gaps.gap, isSpace x = true :=
  fun x mem => isSpace_of_isGap (gaps.gap_isGap x mem)

theorem tail_blank (gaps : Gaps) : ∀ x ∈ gaps.tail, isSpace x = true :=
  fun x mem => isSpace_of_isGap (gaps.tail_isGap x mem)

theorem ends_tail (gaps : Gaps) {close : Char} (closes : close = ']' ∨ close = '\x7d') (rest : List Char) :
    Ends (gaps.tail ++ close :: rest) := by
  intro x head
  have line := gaps.tail_head
  cases tail : gaps.tail with
  | nil =>
    rw [tail] at head
    cases head
    rcases closes with rfl | rfl <;> simp
  | cons y more =>
    rw [tail] at head line
    cases head
    simp [line x rfl]

theorem head_between (gaps : Gaps) {text : List Char} (begins : Begins text) (texts : List (List Char))
    (more : List Char) :
    ∀ x ∈ (gaps.between (text :: texts) ++ more).head?, opensValue x = true := by
  cases texts with
  | nil =>
    rw [between_singleton, List.append_assoc]
    exact begins.head
  | cons next texts =>
    rw [between_cons, List.append_assoc]
    exact begins.head

end Gaps

section Enclosed

variable {part : (c : Cursor) → Except JsonFault (Scanned α c.size)} {close : Char}
  {write : α → List Char} {items : List α} {rest : List Char}

/-- Parts with commas between them are read up to the end. -/
theorem scanParts_reads (closes : close = ']' ∨ close = '\x7d') (gaps : Gaps)
    (legible : Legible part write items) (some : items ≠ []) {bound : Nat} {done : List α} {c : Cursor}
    {h : c.size ≤ bound} (hc : c.rest = gaps.between (items.map write) ++ close :: rest) :
    Reads (scanParts part close done c h) (done.reverse ++ items) rest := by
  induction items generalizing done c with
  | nil => exact absurd rfl some
  | cons first items ih =>
    have read := legible.reads first List.mem_cons_self c
    cases items with
    | nil =>
      rw [List.map_singleton, gaps.between_singleton, List.append_assoc] at hc
      have stops : isSpace close = false := by rcases closes with rfl | rfl <;> rfl
      exact scanParts_last (read _ (gaps.ends_tail closes rest) hc) gaps.tail_blank stops
    | cons second items =>
      have others : Legible part write (second :: items) :=
        ⟨fun a mem => legible.begins a (List.mem_cons_of_mem first mem),
          fun a mem => legible.reads a (List.mem_cons_of_mem first mem)⟩
      have head := gaps.head_between (others.begins second List.mem_cons_self) (items.map write)
        (close :: rest)
      rw [List.map_cons, List.map_cons, gaps.between_cons, List.append_assoc, List.cons_append,
        List.append_assoc] at hc
      have comma : close ≠ ',' := by rcases closes with rfl | rfl <;> decide
      have ends : Ends (',' :: (gaps.gap ++
          (gaps.between (write second :: items.map write) ++ close :: rest))) := by
        rintro x ⟨⟩
        simp
      refine scanParts_comma (read _ ends hc) gaps.gap_blank comma
        (fun x first => isSpace_of_opensValue (head x first)) ?_
      intro c' h' hc'
      have onward : Reads (scanParts part close (first :: done) c' h') _ rest :=
        ih others (List.cons_ne_nil _ _) hc'
      rwa [List.reverse_cons, List.append_assoc] at onward

/-- A list or an object that has parts. -/
theorem scanEnclosed_reads (closes : close = ']' ∨ close = '\x7d') (gaps : Gaps)
    (legible : Legible part write items) (some : items ≠ []) {c : Cursor} {h : 0 < c.size} {opening : Char}
    (hc : c.rest = opening :: (gaps.lead ++ (gaps.between (items.map write) ++ close :: rest))) :
    Reads (scanEnclosed part close c h) items rest := by
  obtain ⟨first, others, rfl⟩ := List.exists_cons_of_ne_nil some
  have head := gaps.head_between (legible.begins first List.mem_cons_self) (others.map write)
    (close :: rest)
  have inner : (c.drop 1).skipSpaces.rest
      = gaps.between ((first :: others).map write) ++ close :: rest := by
    refine rest_skipSpaces ?_ gaps.lead_blank fun x first => isSpace_of_opensValue (head x first)
    simp [Cursor.drop, hc]
  have opened : ¬ (c.drop 1).skipSpaces.rest.head? = Option.some close := by
    rw [inner]
    intro closed
    rcases closes with rfl | rfl <;> cases head _ closed
  unfold scanEnclosed
  simp only [opened, if_false]
  exact scanParts_reads closes gaps legible some inner

/-- A list or an object without parts. -/
theorem scanEnclosed_nil (stops : isSpace close = false) {c : Cursor} {h : 0 < c.size} {opening : Char}
    (hc : c.rest = opening :: close :: rest) : Reads (scanEnclosed part close c h) [] rest := by
  have inner : (c.drop 1).skipSpaces.rest = close :: rest := by
    refine rest_skipSpaces ?_ (List.forall_mem_nil _) ?_
    · simp [Cursor.drop, hc]
    · rintro x ⟨⟩
      exact stops
  unfold scanEnclosed
  simp only [inner, List.head?_cons, if_true]
  refine ⟨_, rfl, rfl, ?_⟩
  show (c.drop 1).skipSpaces.rest.drop 1 = rest
  rw [inner, List.drop_one, List.tail_cons]

end Enclosed

/-! ## Layouts -/

theorem toList_lineStart (step depth : Nat) :
    (Spread.lineStart step depth).toList = '\n' :: List.replicate (step * depth) ' ' := by
  simp [Spread.lineStart]

theorem isGap_lineStart (step depth : Nat) :
    ∀ x ∈ (Spread.lineStart step depth).toList, isGap x = true := by
  rw [toList_lineStart]
  refine List.forall_mem_cons.2 ⟨rfl, fun x mem => ?_⟩
  rw [List.eq_of_mem_replicate mem]
  rfl

theorem head_lineStart (step depth : Nat) :
    ∀ x ∈ (Spread.lineStart step depth).toList.head?, x = '\n' := by
  rw [toList_lineStart]
  rintro x ⟨⟩
  rfl

/-- The gaps that a layout leaves. -/
def Spread.gaps (spread : Spread) (depth : Nat) : Gaps :=
  match spread with
  | .oneLine =>
    { lead := []
      gap := [' ']
      tail := []
      lead_isGap := List.forall_mem_nil _
      gap_isGap := List.forall_mem_singleton.2 rfl
      tail_isGap := List.forall_mem_nil _
      tail_head := nofun }
  | .lines step =>
    { lead := (lineStart step (depth + 1)).toList
      gap := (lineStart step (depth + 1)).toList
      tail := (lineStart step depth).toList
      lead_isGap := isGap_lineStart step (depth + 1)
      gap_isGap := isGap_lineStart step (depth + 1)
      tail_isGap := isGap_lineStart step depth
      tail_head := head_lineStart step depth }

theorem Spread.toList_enclose (spread : Spread) (depth : Nat) (opening closing : String)
    {parts : List String} (some : parts ≠ []) :
    (spread.enclose depth opening closing parts).toList
      = opening.toList ++ ((spread.gaps depth).lead ++
          ((spread.gaps depth).between (parts.map String.toList) ++ closing.toList)) := by
  have filled : parts.isEmpty = false := by simpa using some
  cases spread with
  | oneLine => simp [enclose, filled, gaps, Gaps.between, String.toList_intercalate]
  | lines step => simp [enclose, filled, gaps, Gaps.between, String.toList_intercalate]

section

variable {spread : Spread} {depth : Nat} {opening closing : String} {first close : Char}

theorem Spread.exists_enclose_eq (spread : Spread) (depth : Nat) (opens : opening.toList = [first])
    (closing : String) (parts : List String) :
    ∃ more, (spread.enclose depth opening closing parts).toList = first :: more := by
  by_cases none : parts = []
  · subst none
    exact ⟨closing.toList, by simp [enclose, opens]⟩
  · exact ⟨_, by rw [toList_enclose _ _ _ _ none, opens, List.singleton_append]⟩

/-- What was put between brackets is found there. -/
theorem scanEnclosed_enclose {part : (c : Cursor) → Except JsonFault (Scanned α c.size)}
    {write : α → String} {items : List α} {rest : List Char} {c : Cursor} {h : 0 < c.size}
    (opens : opening.toList = [first]) (ending : closing.toList = [close])
    (closes : close = ']' ∨ close = '\x7d') (legible : Legible part (fun a => (write a).toList) items)
    (hc : c.rest = (spread.enclose depth opening closing (items.map write)).toList ++ rest) :
    Reads (scanEnclosed part close c h) items rest := by
  by_cases none : items = []
  · subst none
    have stops : isSpace close = false := by rcases closes with rfl | rfl <;> rfl
    have text : c.rest = first :: close :: rest := by
      rw [hc]
      simp [Spread.enclose, opens, ending]
    exact scanEnclosed_nil stops text
  · have some : items.map write ≠ [] := by simpa using none
    have text : c.rest = first :: ((spread.gaps depth).lead ++
        ((spread.gaps depth).between (items.map fun a => (write a).toList) ++ close :: rest)) := by
      rw [hc, spread.toList_enclose depth _ _ some, opens, ending]
      simp [Function.comp_def]
    exact scanEnclosed_reads closes (spread.gaps depth) legible none text

end

/-! ## Values -/

mutual

/-- How deep lists and objects nest in a value. -/
def depth : Json → Nat
  | arr items => depthOfItems items + 1
  | obj members => depthOfMembers members + 1
  | _ => 0

def depthOfItems : List Json → Nat
  | [] => 0
  | item :: items => max item.depth (depthOfItems items)

def depthOfMembers : List (Text × Json) → Nat
  | [] => 0
  | (_, value) :: members => max value.depth (depthOfMembers members)

end

mutual

/-- The doubles in a value. -/
def doubles : Json → List Float
  | float x => [x]
  | arr items => doublesOfItems items
  | obj members => doublesOfMembers members
  | _ => []

def doublesOfItems : List Json → List Float
  | [] => []
  | item :: items => item.doubles ++ doublesOfItems items

def doublesOfMembers : List (Text × Json) → List Float
  | [] => []
  | (_, value) :: members => value.doubles ++ doublesOfMembers members

end

theorem depthOfMembers_eq (members : List (Text × Json)) :
    depthOfMembers members = depthOfItems (members.map Prod.snd) := by
  induction members with
  | nil => rw [depthOfMembers, List.map_nil, depthOfItems]
  | cons member members ih => rw [depthOfMembers, List.map_cons, depthOfItems, ih]

theorem doublesOfMembers_eq (members : List (Text × Json)) :
    doublesOfMembers members = doublesOfItems (members.map Prod.snd) := by
  induction members with
  | nil => rw [doublesOfMembers, List.map_nil, doublesOfItems]
  | cons member members ih => rw [doublesOfMembers, List.map_cons, doublesOfItems, ih]

theorem depth_le_of_mem {items : List Json} {item : Json} (mem : item ∈ items) :
    item.depth ≤ depthOfItems items := by
  induction items with
  | nil => cases mem
  | cons first items ih =>
    rw [depthOfItems]
    rcases List.mem_cons.1 mem with rfl | mem
    · exact Nat.le_max_left _ _
    · exact (ih mem).trans (Nat.le_max_right _ _)

theorem mem_doublesOfItems {items : List Json} {item : Json} (mem : item ∈ items) {x : Float}
    (inside : x ∈ item.doubles) : x ∈ doublesOfItems items := by
  induction items with
  | nil => cases mem
  | cons first items ih =>
    rw [doublesOfItems]
    rcases List.mem_cons.1 mem with rfl | mem
    · exact List.mem_append_left _ inside
    · exact List.mem_append_right _ (ih mem)

/-- A value that a text can hold as it is: integers are not too long, strings have no surrogates, and
objects have every key once. -/
inductive Writable : Json → Prop
  | null : Writable .null
  | bool {b} : Writable (.bool b)
  | int {i : Int} (short : (Nat.toDigits 10 i.natAbs).length ≤ digitLimit) : Writable (.int i)
  | float {x} : Writable (.float x)
  | str {s : Text} (plain : s.Plain) : Writable (.str s)
  | arr {items} (each : ∀ item ∈ items, Writable item) : Writable (.arr items)
  | obj {members} (once : (members.map Prod.fst).Nodup) (plain : ∀ member ∈ members, member.1.Plain)
      (each : ∀ member ∈ members, Writable member.2) : Writable (.obj members)

theorem insertMember_of_not_mem {key : Text} {value : Json} {members : List (Text × Json)}
    (new : key ∉ members.map Prod.fst) : insertMember key value members = members ++ [(key, value)] := by
  induction members with
  | nil => rfl
  | cons member members ih =>
    simp only [List.map_cons, List.mem_cons, not_or] at new
    rw [insertMember, if_neg (Ne.symm new.1), ih new.2]
    rfl

/-- Members with keys of their own go to the end, one after the other. -/
theorem foldl_insertMember {known members : List (Text × Json)}
    (once : ((known ++ members).map Prod.fst).Nodup) :
    members.foldl (fun known (k, v) => insertMember k v known) known = known ++ members := by
  induction members generalizing known with
  | nil => simp
  | cons member members ih =>
    obtain ⟨key, value⟩ := member
    have new : key ∉ known.map Prod.fst := by
      simp only [List.map_append, List.map_cons, List.nodup_append] at once
      exact fun mem => once.2.2 _ mem _ List.mem_cons_self rfl
    simp only [List.foldl_cons, insertMember_of_not_mem new]
    rw [ih (by simpa using once), List.append_assoc, List.singleton_append]

theorem object_of_nodup {members : List (Text × Json)} (once : (members.map Prod.fst).Nodup) :
    object members = .obj members :=
  congrArg obj (foldl_insertMember once)

theorem writeItems_eq_map (spread : Spread) (depth : Nat) (items : List Json) :
    writeItems spread depth items = items.map (writeAt spread depth) := by
  induction items with
  | nil => rw [writeItems, List.map_nil]
  | cons item items ih => rw [writeItems, List.map_cons, ih]

/-- A key and its value as they are written. -/
def writeMember (spread : Spread) (depth : Nat) (member : Text × Json) : String :=
  writeString member.1 ++ ": " ++ writeAt spread depth member.2

theorem writeMembers_eq_map (spread : Spread) (depth : Nat) (members : List (Text × Json)) :
    writeMembers spread depth members = members.map (writeMember spread depth) := by
  induction members with
  | nil => rw [writeMembers, List.map_nil]
  | cons member members ih =>
    rw [writeMembers, List.map_cons, ih]
    rfl

/-! ## Reading back -/

section Reading

variable {levels : Nat} {c : Cursor} {rest : List Char}

theorem scanValue_quote {s : Text} {more : List Char} (hc : c.rest = '"' :: more)
    (reads : Reads (scanString c.offset [] (c.drop 1) (Nat.le_refl _)) s rest) :
    Reads (scanValue levels c) (.str s) rest := by
  obtain ⟨found, scanned, rfl, left⟩ := reads
  unfold scanValue
  split
  · rw [scanned]
    exact ⟨_, rfl, rfl, left⟩
  · next bracket => cases hc.symm.trans bracket
  · next brace => cases hc.symm.trans brace
  · next quote _ _ => exact absurd hc (quote more)

theorem scanValue_bracket {items : List Json} {more : List Char} (hc : c.rest = '[' :: more)
    (reads : ∀ h, Reads (scanEnclosed (scanValue levels) ']' c h) items rest) :
    Reads (scanValue (levels + 1) c) (.arr items) rest := by
  unfold scanValue
  split
  · next quote => cases hc.symm.trans quote
  · obtain ⟨found, scanned, rfl, left⟩ := reads (Cursor.size_pos_of_rest_eq hc)
    exact ⟨_, congrArg (Except.map (·.map arr)) scanned, rfl, left⟩
  · next brace => cases hc.symm.trans brace
  · next _ bracket _ => exact absurd hc (bracket more)

theorem scanValue_brace {members : List (Text × Json)} {more : List Char} (hc : c.rest = '\x7b' :: more)
    (reads : ∀ h, Reads (scanEnclosed (scanMember (scanValue levels)) '\x7d' c h) members rest) :
    Reads (scanValue (levels + 1) c) (.object members) rest := by
  unfold scanValue
  split
  · next quote => cases hc.symm.trans quote
  · next bracket => cases hc.symm.trans bracket
  · obtain ⟨found, scanned, rfl, left⟩ := reads (Cursor.size_pos_of_rest_eq hc)
    exact ⟨_, congrArg (Except.map (·.map object)) scanned, rfl, left⟩
  · next _ _ brace => exact absurd hc (brace more)

theorem ofChar_of_char? {p : CodePoint} {x : Char} (h : p.char? = some x) : .ofChar x = p := by
  unfold CodePoint.char? at h
  split at h
  · next valid =>
    cases h
    cases p with
    | mk number small => simp [CodePoint.ofChar, Char.toNat_ofNat, valid]
  · cases h

theorem map_ofChar_chars {s : Text} (plain : s.Plain) : s.chars.map .ofChar = s.points := by
  obtain ⟨points⟩ := s
  show (points.filterMap CodePoint.char?).map .ofChar = points
  induction points with
  | nil => rfl
  | cons p points ih =>
    have here := plain p List.mem_cons_self
    cases char : p.char? with
    | none => simp [CodePoint.isSurrogate, char] at here
    | some x =>
      rw [List.filterMap_cons_some char, List.map_cons, ofChar_of_char? char,
        ih fun q mem => plain q (List.mem_cons_of_mem p mem)]

theorem toList_writeString {s : Text} (plain : s.Plain) :
    (writeString s).toList = '"' :: (s.chars.flatMap (fun x => (writeChar x).toList) ++ ['"']) := by
  have each : s.points.map writePoint = s.chars.map writeChar := by
    rw [← map_ofChar_chars plain, List.map_map]
    exact List.map_congr_left fun x _ => by simp [writePoint]
  simp [writeString, each, List.flatMap_map]

theorem scanString_reads {s : Text} (plain : s.Plain) {opened bound : Nat} {h : c.size ≤ bound}
    (hc : c.rest = s.chars.flatMap (fun x => (writeChar x).toList) ++ '"' :: rest) :
    Reads (scanString opened [] c h) s rest := by
  have reads : Reads (scanString opened [] c h) _ rest := scanString_writeString hc
  rwa [map_ofChar_chars plain] at reads

/-- A key, a colon, and the text of a value that the scanner is known to read. -/
theorem scanMember_reads {scan : Scanner} {key : Text} {value : Json} {text : List Char} (plain : key.Plain)
    (begins : Begins text) (reads : ∀ c : Cursor, c.rest = text ++ rest → Reads (scan c) value rest)
    (hc : c.rest = (writeString key).toList ++ ':' :: ' ' :: (text ++ rest)) :
    Reads (scanMember scan c) (key, value) rest := by
  rw [toList_writeString plain, List.cons_append, List.append_assoc, List.singleton_append] at hc
  have inside : (c.drop 1).rest = key.chars.flatMap (fun x => (writeChar x).toList)
      ++ '"' :: ':' :: ' ' :: (text ++ rest) := by
    simp [Cursor.drop, hc]
  have keyed : Reads (scanString c.offset [] (c.drop 1) (Nat.le_refl _)) key
      (':' :: ' ' :: (text ++ rest)) := scanString_reads plain inside
  obtain ⟨found, scanned, rfl, left⟩ := keyed
  have colon : found.next.skipSpaces.rest = ':' :: ' ' :: (text ++ rest) := by
    refine rest_skipSpaces (left.trans (List.nil_append _).symm) (List.forall_mem_nil _) ?_
    rintro x ⟨⟩
    rfl
  have after : (found.next.skipSpaces.drop 1).skipSpaces.rest = text ++ rest := by
    have spaced : (found.next.skipSpaces.drop 1).rest = [' '] ++ (text ++ rest) := by
      simp [Cursor.drop, colon]
    exact rest_skipSpaces spaced (List.forall_mem_singleton.2 rfl) fun x head =>
      isSpace_of_opensValue (begins.head x head)
  obtain ⟨last, valued, rfl, finish⟩ := reads _ after
  unfold scanMember
  rw [if_pos (by rw [hc]; rfl), scanned]
  simp only [bind, Except.bind, colon, List.head?_cons, if_true, valued]
  exact ⟨_, rfl, rfl, finish⟩

end Reading

theorem IsScalar.begins {text : List Char} {value : Json} (scalar : IsScalar text value) : Begins text := by
  obtain ⟨x, more, rfl, part⟩ := scalar.exists_cons
  have list : x ≠ ']' := ne_of_isScalarPart part rfl
  have object : x ≠ '\x7d' := ne_of_isScalarPart part rfl
  have mark : x ≠ '\ufeff' := ne_of_isScalarPart part rfl
  exact ⟨x, more, rfl, by simp [opensValue, isSpace_of_isScalarPart part, list, object, mark]⟩

/-- A text from which a value is read, wherever it stands and whatever may follow it. -/
structure Spells (text : List Char) (value : Json) : Prop where
  begins : Begins text
  reads : ∀ {levels : Nat} {c : Cursor} {rest : List Char}, value.depth ≤ levels → Ends rest →
    c.rest = text ++ rest → Reads (scanValue levels c) value rest

theorem IsScalar.spells {text : List Char} {value : Json} (scalar : IsScalar text value) :
    Spells text value where
  begins := scalar.begins
  reads _ ends hc := scalar.reads ends hc

theorem spells_str {s : Text} (plain : s.Plain) : Spells (writeString s).toList (.str s) where
  begins := by
    rw [toList_writeString plain]
    exact ⟨'"', _, rfl, rfl⟩
  reads {levels c rest} _ _ hc := by
    rw [toList_writeString plain, List.cons_append, List.append_assoc, List.singleton_append] at hc
    refine scanValue_quote hc (scanString_reads plain ?_)
    simp [Cursor.drop, hc]

/-- Items that are spelt make an array that is spelt, on one line or spread over several. -/
theorem spells_arr {spread : Spread} {depth : Nat} {items : List Json}
    (each : ∀ item ∈ items, Spells (item.writeAt spread (depth + 1)).toList item) :
    Spells (writeAt spread depth (.arr items)).toList (.arr items) := by
  have opens : "[".toList = ['['] := rfl
  rw [writeAt, writeItems_eq_map]
  obtain ⟨more, text⟩ := spread.exists_enclose_eq depth opens "]" (items.map (writeAt spread (depth + 1)))
  refine ⟨⟨'[', more, text, rfl⟩, fun {levels c rest} deep _ hc => ?_⟩
  cases levels with
  | zero => cases deep
  | succ levels =>
    have legible :
        Legible (scanValue levels) (fun item => (writeAt spread (depth + 1) item).toList) items :=
      ⟨fun item mem => (each item mem).begins, fun item mem _ _ => (each item mem).reads
        ((depth_le_of_mem mem).trans (Nat.le_of_succ_le_succ deep))⟩
    refine scanValue_bracket (by rw [hc, text, List.cons_append]) fun _ => ?_
    exact scanEnclosed_enclose opens rfl (.inl rfl) legible hc

/-- The same for objects. A key that came twice would be read as one. -/
theorem spells_obj {spread : Spread} {depth : Nat} {members : List (Text × Json)}
    (once : (members.map Prod.fst).Nodup) (plain : ∀ member ∈ members, member.1.Plain)
    (each : ∀ member ∈ members, Spells (member.2.writeAt spread (depth + 1)).toList member.2) :
    Spells (writeAt spread depth (.obj members)).toList (.obj members) := by
  have opens : "\x7b".toList = ['\x7b'] := rfl
  rw [writeAt, writeMembers_eq_map]
  obtain ⟨more, text⟩ :=
    spread.exists_enclose_eq depth opens "\x7d" (members.map (writeMember spread (depth + 1)))
  refine ⟨⟨'\x7b', more, text, rfl⟩, fun {levels c rest} deep _ hc => ?_⟩
  cases levels with
  | zero => cases deep
  | succ levels =>
    have written (member : Text × Json) : (writeMember spread (depth + 1) member).toList
        = (writeString member.1).toList ++ ':' :: ' ' :: (member.2.writeAt spread (depth + 1)).toList := by
      simp [writeMember]
    have legible : Legible (scanMember (scanValue levels))
        (fun member => (writeMember spread (depth + 1) member).toList) members := by
      refine ⟨fun member mem => ?_, fun member mem c rest ends hc => ?_⟩
      · rw [written, toList_writeString (plain member mem)]
        exact ⟨'"', _, rfl, rfl⟩
      · rw [written, List.append_assoc] at hc
        have within : member.2.depth ≤ levels := by
          rw [Json.depth, depthOfMembers_eq] at deep
          exact (depth_le_of_mem (List.mem_map_of_mem mem)).trans (Nat.le_of_succ_le_succ deep)
        exact scanMember_reads (plain member mem) (each member mem).begins
          (fun c hc => (each member mem).reads within ends hc) hc
    rw [← object_of_nodup once]
    refine scanValue_brace (by rw [hc, text, List.cons_append]) fun _ => ?_
    exact scanEnclosed_enclose opens rfl (.inr rfl) legible hc

/-- By induction on the value: what is written is read as the value again, if its doubles are. -/
theorem Writable.spells {j : Json} (writable : Writable j) (back : ∀ x ∈ j.doubles, ReadsBack x)
    (spread : Spread) (depth : Nat) : Spells (j.writeAt spread depth).toList j := by
  induction writable generalizing depth with
  | null => exact isScalar_null.spells
  | bool => exact (isScalar_bool _).spells
  | int short => exact (isScalar_int short).spells
  | float => exact (isScalar_float (back _ (by simp [doubles]))).spells
  | str plain => exact spells_str plain
  | arr _ ih =>
    rw [doubles] at back
    exact spells_arr fun item mem => ih item mem (fun x inside => back x (mem_doublesOfItems mem inside)) _
  | obj once plain _ ih =>
    rw [doubles, doublesOfMembers_eq] at back
    refine spells_obj once plain fun member mem => ih member mem (fun x inside => ?_) _
    exact back x (mem_doublesOfItems (List.mem_map_of_mem mem) inside)

/-- A value is read back from its text. -/
theorem parse_write {j : Json} (writable : Writable j) (back : ∀ x ∈ j.doubles, ReadsBack x)
    (spread : Spread) {levels : Nat} (deep : j.depth ≤ levels) :
    parse levels (j.write spread).toList = .ok j := by
  have spells := writable.spells back spread 0
  unfold parse write
  generalize (writeAt spread 0 j).toList = text at spells
  have head : ∀ x ∈ (text ++ []).head?, opensValue x = true := spells.begins.head
  rw [List.append_nil] at head
  have start : (Cursor.mk 0 text).skipSpaces.rest = text :=
    rest_skipSpaces (List.nil_append text).symm (List.forall_mem_nil _) fun x first =>
      isSpace_of_opensValue (head x first)
  have ends : Ends [] := by rintro x ⟨⟩
  obtain ⟨found, scanned, rfl, left⟩ := spells.reads deep ends (start.trans (List.append_nil text).symm)
  have finished : found.next.skipSpaces.rest = [] :=
    rest_skipSpaces left (List.forall_mem_nil _) (by rintro x ⟨⟩)
  have unmarked : ¬ text.head? = some '\ufeff' := fun mark => by cases head _ mark
  rw [if_neg unmarked, scanned]
  simp [bind, Except.bind, finished, pure, Except.pure]

/-! ## Line ends -/

section LineEnds

variable {P : Char → Prop}

/-- What holds of commas, of gaps and of the parts holds of all that stands between two brackets. -/
theorem Gaps.forall_mem_between (gaps : Gaps) (comma : P ',') (gap : ∀ x, isGap x = true → P x)
    {texts : List (List Char)} (each : ∀ text ∈ texts, ∀ x ∈ text, P x) :
    ∀ x ∈ gaps.between texts, P x := by
  have tail : ∀ x ∈ gaps.tail, P x := fun x mem => gap x (gaps.tail_isGap x mem)
  induction texts with
  | nil => simpa [between] using tail
  | cons text texts ih =>
    have here := each text List.mem_cons_self
    have others := ih fun text mem => each text (List.mem_cons_of_mem _ mem)
    cases texts with
    | nil =>
      rw [between_singleton]
      exact List.forall_mem_append.2 ⟨here, tail⟩
    | cons next texts =>
      rw [between_cons]
      refine List.forall_mem_append.2 ⟨here, List.forall_mem_cons.2 ⟨comma, ?_⟩⟩
      exact List.forall_mem_append.2 ⟨fun x mem => gap x (gaps.gap_isGap x mem), others⟩

/-- Of what is put around and between the parts, all is punctuation or white space. -/
theorem Spread.forall_mem_enclose (spread : Spread) (depth : Nat) {opening closing : String}
    {parts : List String} (opens : ∀ x ∈ opening.toList, P x) (closes : ∀ x ∈ closing.toList, P x)
    (comma : P ',') (gap : ∀ x, isGap x = true → P x) (each : ∀ part ∈ parts, ∀ x ∈ part.toList, P x) :
    ∀ x ∈ (spread.enclose depth opening closing parts).toList, P x := by
  by_cases none : parts = []
  · subst none
    have empty : (spread.enclose depth opening closing []).toList = opening.toList ++ closing.toList := by
      simp [enclose]
    rw [empty]
    exact List.forall_mem_append.2 ⟨opens, closes⟩
  · rw [toList_enclose _ _ _ _ none]
    refine List.forall_mem_append.2 ⟨opens, List.forall_mem_append.2 ⟨?_, ?_⟩⟩
    · exact fun x mem => gap x ((spread.gaps depth).lead_isGap x mem)
    · refine List.forall_mem_append.2 ⟨(spread.gaps depth).forall_mem_between comma gap ?_, closes⟩
      intro text mem
      obtain ⟨part, known, rfl⟩ := List.mem_map.1 mem
      exact each part known

end LineEnds

theorem not_mem_hexPadded {number : Nat} (h : number < 0x20) : '\r' ∉ (hexPadded 4 number).toList := by
  have absent : (hexPadded 4 number).toList.contains '\r' = false := by
    rw [hexPadded, String.toList_ofList]
    interval_cases number <;> rfl
  simpa using absent

theorem not_mem_writeChar (x : Char) : '\r' ∉ (writeChar x).toList := by
  intro mem
  rcases writeChar_cases x with
    ⟨letter, written, escapes⟩ | ⟨control, written⟩ | ⟨_, _, control, written⟩ <;> rw [written] at mem
  · rcases List.mem_cons.1 mem with slash | mem
    · cases slash
    · cases List.mem_singleton.1 mem
      cases escapes
  · simp [not_mem_hexPadded control] at mem
  · cases List.mem_singleton.1 mem
    exact control (by decide)

theorem ne_return_of_mem_writeString {s : Text} (plain : s.Plain) :
    ∀ x ∈ (writeString s).toList, x ≠ '\r' := by
  rw [toList_writeString plain]
  refine List.forall_mem_cons.2 ⟨by decide, List.forall_mem_append.2 ⟨?_, ?_⟩⟩
  · rintro y mem rfl
    obtain ⟨x, -, written⟩ := List.mem_flatMap.1 mem
    exact not_mem_writeChar x written
  · exact List.forall_mem_singleton.2 (by decide)

/-- Carriage returns are escaped in strings, and nothing else could hold one. So a file keeps its line
ends. -/
theorem Writable.ne_return {j : Json} (writable : Writable j) (spread : Spread) (depth : Nat) :
    ∀ x ∈ (j.writeAt spread depth).toList, x ≠ '\r' := by
  have gap (x : Char) (isGap : isGap x = true) : x ≠ '\r' := by
    rintro rfl
    cases isGap
  induction writable generalizing depth with
  | null => exact fun x mem => ne_of_isScalarPart (isScalar_null.parts x mem) rfl
  | bool => exact fun x mem => ne_of_isScalarPart ((isScalar_bool _).parts x mem) rfl
  | int short => exact fun x mem => ne_of_isScalarPart ((isScalar_int short).parts x mem) rfl
  | float => exact fun x mem => ne_of_isScalarPart (isScalarPart_number _ x mem) rfl
  | str plain => exact ne_return_of_mem_writeString plain
  | arr _ ih =>
    rw [writeAt, writeItems_eq_map]
    refine spread.forall_mem_enclose depth (List.forall_mem_singleton.2 (by decide))
      (List.forall_mem_singleton.2 (by decide)) (by decide) gap fun part mem => ?_
    obtain ⟨item, known, rfl⟩ := List.mem_map.1 mem
    exact ih item known (depth + 1)
  | obj _ plain _ ih =>
    rw [writeAt, writeMembers_eq_map]
    refine spread.forall_mem_enclose depth (List.forall_mem_singleton.2 (by decide))
      (List.forall_mem_singleton.2 (by decide)) (by decide) gap fun part mem => ?_
    obtain ⟨member, known, rfl⟩ := List.mem_map.1 mem
    rw [writeMember, String.toList_append, String.toList_append]
    refine List.forall_mem_append.2 ⟨List.forall_mem_append.2 ⟨?_, ?_⟩, ih member known (depth + 1)⟩
    · exact ne_return_of_mem_writeString (plain member known)
    · exact List.forall_mem_cons.2 ⟨by decide, List.forall_mem_singleton.2 (by decide)⟩

end Json

end Abacus
