import Mathlib
import Abacus.Command.Run
import Abacus.Proofs.JsonScalars

/-!
# Texts on one line

Messages are put together from fixed words, numbers, quoted texts and names. All but the names stand on
one line whatever they speak of: a quoted text shows a line break by its escape. So a report takes more
than one line only if it splices a name with a line break.
-/

namespace Abacus

/-- The characters at which a text is cut into lines. -/
def isLineBreak (c : Char) : Bool :=
  let n := c.toNat
  0x0a ≤ n && n ≤ 0x0d || 0x1c ≤ n && n ≤ 0x1e || n == 0x85 || n == 0x2028 || n == 0x2029

/-- Characters without a line break. -/
def OneLine (cs : List Char) : Prop := cs.all (fun c => !isLineBreak c) = true

instance (cs : List Char) : Decidable (OneLine cs) := inferInstanceAs (Decidable (_ = true))

theorem oneLine_iff {cs : List Char} : OneLine cs ↔ ∀ c ∈ cs, isLineBreak c = false := by
  simp [OneLine]

theorem oneLine_append {as bs : List Char} : OneLine (as ++ bs) ↔ OneLine as ∧ OneLine bs := by
  simp [OneLine]

theorem OneLine.of_subset {as bs : List Char} (h : OneLine bs) (sub : as ⊆ bs) : OneLine as :=
  oneLine_iff.2 fun c mem => oneLine_iff.1 h c (sub mem)

/-- The numbers of the line breaks. -/
def breakNumbers : List Nat := [0x0a, 0x0b, 0x0c, 0x0d, 0x1c, 0x1d, 0x1e, 0x85, 0x2028, 0x2029]

/-- A class of characters that has no line break in it. -/
theorem isLineBreak_eq_false {p : Char → Bool}
    (none : breakNumbers.all (fun n => !p (Char.ofNat n)) = true) {c : Char} (hc : p c = true) :
    isLineBreak c = false := by
  by_contra broken
  have number : c.toNat ∈ breakNumbers := by
    simp only [isLineBreak, Bool.not_eq_false, Bool.or_eq_true, Bool.and_eq_true, decide_eq_true_eq,
      beq_iff_eq] at broken
    simp only [breakNumbers, List.mem_cons, List.not_mem_nil, or_false]
    omega
  have outside := List.all_eq_true.1 none c.toNat number
  rw [Char.ofNat_toNat, hc] at outside
  cases outside

theorem oneLine_of_class {p : Char → Bool} (none : breakNumbers.all (fun n => !p (Char.ofNat n)) = true)
    {cs : List Char} (h : ∀ c ∈ cs, p c = true) : OneLine cs :=
  oneLine_iff.2 fun c mem => isLineBreak_eq_false none (h c mem)

theorem oneLine_scalar {cs : List Char} (h : ∀ c ∈ cs, Json.isScalarPart c = true) : OneLine cs :=
  oneLine_of_class (by decide +kernel) h

/-! ## Numbers -/

theorem oneLine_int (n : Int) : OneLine (toString n).toList := by
  rw [Json.toList_toString_int]
  refine oneLine_append.2 ⟨?_, oneLine_scalar Json.isScalarPart_toDigits⟩
  split <;> decide

theorem oneLine_nat (n : Nat) : OneLine (toString n).toList := oneLine_int n

theorem isScalarPart_toDigits_hex (n : Nat) : ∀ c ∈ Nat.toDigits 16 n, Json.isScalarPart c = true := by
  have digit : ∀ d < 16, Json.isScalarPart (Nat.digitChar d) = true := by decide
  induction n using Nat.strongRecOn with
  | ind n ih =>
    by_cases small : n < 16
    · rw [Nat.toDigits_of_lt_base small]
      exact List.forall_mem_singleton.2 (digit n small)
    · rw [Nat.toDigits_of_base_le (by decide) (Nat.not_lt.1 small)]
      refine List.forall_mem_append.2 ⟨ih (n / 16) (by omega), ?_⟩
      exact List.forall_mem_singleton.2 (digit _ (Nat.mod_lt n (by decide)))

theorem oneLine_hexPadded (width n : Nat) : OneLine (hexPadded width n).toList := by
  rw [hexPadded, String.toList_ofList]
  refine oneLine_scalar (List.forall_mem_append.2 ⟨?_, isScalarPart_toDigits_hex n⟩)
  exact Json.isScalarPart_zeros _

theorem oneLine_codeEscape (n : Nat) : OneLine (codeEscape n).toList := by
  unfold codeEscape
  split_ifs
  all_goals
    rw [String.toList_append]
    exact oneLine_append.2 ⟨by decide, oneLine_hexPadded _ _⟩

/-- A double is written like a number of a tree file, but for those without digits. -/
theorem oneLine_double (x : Float) : OneLine (Layout.exact.write x).toList := by
  have finite := oneLine_scalar (Json.isScalarPart_number x)
  unfold Layout.write at finite ⊢
  split_ifs with isNaN isInf
  · decide
  · decide
  · decide
  · rw [if_neg isNaN, if_neg isInf] at finite
    exact finite

/-! ## Quoted texts -/

theorem oneLine_char {c : Char} : OneLine c.toString.toList ↔ isLineBreak c = false := by
  have alone : c.toString.toList = [c] := String.toList_singleton c
  rw [oneLine_iff, alone]
  exact List.forall_mem_singleton

theorem oneLine_join {strings : List String} (h : ∀ s ∈ strings, OneLine s.toList) :
    OneLine (String.join strings).toList := by
  rw [String.toList_join, oneLine_iff]
  intro c mem
  obtain ⟨s, inside, here⟩ := List.mem_flatMap.1 mem
  exact oneLine_iff.1 (h s inside) c here

theorem oneLine_quotedChar {quote : Char} (plain : isLineBreak quote = false) (c : Char) :
    OneLine (quotedChar quote c).toList := by
  unfold quotedChar
  split_ifs with special newline ret tab shown
  · rw [String.toList_append]
    refine oneLine_append.2 ⟨by decide, oneLine_char.2 ?_⟩
    rcases Bool.or_eq_true _ _ ▸ special with isQuote | isSlash
    · rwa [of_decide_eq_true isQuote]
    · rw [of_decide_eq_true isSlash]
      decide
  · decide
  · decide
  · decide
  · exact oneLine_char.2 (isLineBreak_eq_false (by decide +kernel) shown)
  · exact oneLine_codeEscape _

/-- A quoted text stands on one line, whatever it holds. -/
theorem oneLine_quoted (text : Text) : OneLine (quoted text).toList := by
  have plain : isLineBreak (quoteFor text) = false := by
    unfold quoteFor
    split <;> decide
  have points : ∀ s ∈ text.points.map (quotedPoint (quoteFor text)), OneLine s.toList := by
    intro s mem
    obtain ⟨p, -, rfl⟩ := List.mem_map.1 mem
    unfold quotedPoint
    split
    · exact oneLine_quotedChar plain _
    · exact oneLine_codeEscape _
  rw [quoted, String.toList_append, String.toList_append, oneLine_append, oneLine_append]
  exact ⟨⟨oneLine_char.2 plain, oneLine_join points⟩, oneLine_char.2 plain⟩

/-! ## Texts -/

namespace Text

/-- A text without a line break. -/
def OneLine (t : Text) : Prop := Abacus.OneLine t.chars

instance (t : Text) : Decidable t.OneLine := inferInstanceAs (Decidable (Abacus.OneLine _))

theorem oneLine_ofString {s : String} : (ofString s).OneLine ↔ Abacus.OneLine s.toList := by
  rw [OneLine, chars_ofString]

theorem chars_append (a b : Text) : (a ++ b).chars = a.chars ++ b.chars := List.filterMap_append

theorem oneLine_append {a b : Text} : (a ++ b).OneLine ↔ a.OneLine ∧ b.OneLine := by
  rw [OneLine, chars_append, Abacus.oneLine_append]
  rfl

end Text

namespace Json

/-- The items of a list and the members of an object stand between commas. -/
theorem oneLine_intercalate {strings : List String} (h : ∀ s ∈ strings, Abacus.OneLine s.toList) :
    Abacus.OneLine (String.intercalate ", " strings).toList := by
  have comma : Abacus.OneLine ", ".toList := by decide
  induction strings with
  | nil => decide
  | cons first strings ih =>
    obtain ⟨here, later⟩ := List.forall_mem_cons.1 h
    cases strings with
    | nil => simpa using here
    | cons second strings =>
      rw [String.intercalate_cons_cons, String.toList_append, String.toList_append, oneLine_append,
        oneLine_append]
      exact ⟨⟨here, comma⟩, ih later⟩

mutual

theorem oneLine_shown : ∀ json : Json, Abacus.OneLine json.shown.toList
  | null => by decide
  | bool b => by cases b <;> decide
  | int n => oneLine_int n
  | float x => oneLine_double x
  | str s => oneLine_quoted s
  | arr items => by
    rw [shown, String.toList_append, String.toList_append, oneLine_append, oneLine_append]
    exact ⟨⟨by decide, oneLine_intercalate (oneLine_shownItems items)⟩, by decide⟩
  | obj members => by
    rw [shown, String.toList_append, String.toList_append, oneLine_append, oneLine_append]
    exact ⟨⟨by decide, oneLine_intercalate (oneLine_shownMembers members)⟩, by decide⟩

theorem oneLine_shownItems : ∀ items : List Json, ∀ s ∈ shownItems items, Abacus.OneLine s.toList
  | [] => List.forall_mem_nil _
  | item :: items => List.forall_mem_cons.2 ⟨oneLine_shown item, oneLine_shownItems items⟩

theorem oneLine_shownMembers : ∀ members : List (Text × Json),
    ∀ s ∈ shownMembers members, Abacus.OneLine s.toList
  | [] => List.forall_mem_nil _
  | (key, value) :: members => by
    refine List.forall_mem_cons.2 ⟨?_, oneLine_shownMembers members⟩
    rw [String.toList_append, String.toList_append, oneLine_append, oneLine_append]
    exact ⟨⟨oneLine_quoted key, by decide⟩, oneLine_shown value⟩

end

/-- Only a text that is shown as it is can break a line. -/
theorem oneLine_display (json : Json) : json.display.OneLine ∨ ∃ t, json = .str t ∧ ¬ t.OneLine := by
  cases json with
  | str t =>
    by_cases calm : t.OneLine
    · exact .inl calm
    · exact .inr ⟨t, rfl, calm⟩
  | _ => exact .inl (Text.oneLine_ofString.2 (oneLine_shown _))

end Json

/-! ## Reports -/

namespace Report

/-- A report that stands on one line. -/
def OneLine (r : Report) : Prop := r.summary.OneLine

instance (r : Report) : Decidable r.OneLine := inferInstanceAs (Decidable r.summary.OneLine)

theorem oneLine_summary {r : Report} : r.OneLine ↔ Abacus.OneLine r.name.toList ∧ r.message.OneLine := by
  have colon : Abacus.OneLine ": ".toList := by decide
  rw [OneLine, summary, Text.oneLine_append, Text.oneLine_append, Text.oneLine_ofString,
    Text.oneLine_ofString]
  exact and_congr_left' (and_iff_left colon)

end Report

theorem oneLine_tooManyDigits (limit digits : Nat) : (tooManyDigits limit digits).OneLine := by
  simp only [tooManyDigits, Report.oneLine_summary, Report.name, Report.message,
    Text.oneLine_append, Text.oneLine_ofString, oneLine_nat]
  decide +kernel

theorem DiskFault.oneLine_report (fault : DiskFault) : fault.report.OneLine := by
  unfold report
  cases fault.cause
  all_goals
    simp only [Report.oneLine_summary, Report.name, Report.message, Text.oneLine_append,
      Text.oneLine_ofString, oneLine_quoted]
    decide +kernel

theorem Utf8Fault.oneLine_report (fault : Utf8Fault) : fault.report.OneLine := by
  have bytes (byte : UInt8) (position count : Nat) :
      Abacus.OneLine (bytesText byte position count).toList := by
    unfold bytesText
    split
    all_goals
      simp only [String.toList_append, oneLine_append, oneLine_hexPadded, oneLine_nat]
      decide +kernel
  unfold report
  cases fault
  all_goals
    simp only [Report.oneLine_summary, Report.name, Report.message, Text.oneLine_append,
      Text.oneLine_ofString, bytes]
    decide +kernel

theorem JsonFault.oneLine_report (text : List Char) (fault : JsonFault) : (fault.report text).OneLine := by
  have causes (cause : JsonCause) : Abacus.OneLine cause.message.toList := by
    cases cause <;> decide +kernel
  cases fault with
  | rejected cause offset =>
    simp only [report, Report.oneLine_summary, Report.name, Report.message,
      Text.oneLine_append, Text.oneLine_ofString, oneLine_nat, causes]
    decide +kernel
  | numeralTooLong digits => exact oneLine_tooManyDigits _ _
  | nestedTooDeeply isList =>
    simp only [report, Report.oneLine_summary, Report.name, Report.message, Text.oneLine_append,
      Text.oneLine_ofString]
    cases isList <;> decide +kernel

theorem OperandFault.oneLine_report (fault : OperandFault) : fault.report.OneLine := by
  have symbols (op : NativeOp) : Abacus.OneLine op.symbol.toList := by
    cases op <;> decide +kernel
  have kinds (value : Value) : Abacus.OneLine value.kind.toList := by
    unfold Value.kind
    split <;> decide +kernel
  cases fault
  all_goals
    simp only [report, Report.oneLine_summary, Report.name, Report.message,
      Text.oneLine_append, Text.oneLine_ofString, oneLine_nat, symbols, kinds]
    decide +kernel

end Abacus
