import Mathlib
import Abacus.Command.Disk

/-!
# Files beside files

What becomes of a disk when a file is written beside another one. A path that leads to a file, with an
extension added, leads to the place beside it (`Disk.resolve_extended`). Writing a file there changes what
stands at that place and nowhere else (`Disk.look_put_of_ne`), since the folder around it was there
before.
-/

namespace Abacus

/-! ## Paths -/

theorem pathNames_of_not_mem {name : List Char} (h : '/' ∉ name) : pathNames name = [name] := by
  induction name with
  | nil => rfl
  | cons c name ih =>
    have other : c ≠ '/' := fun same => h (same ▸ List.mem_cons_self)
    rw [pathNames, if_neg other, ih fun mem => h (List.mem_cons_of_mem c mem)]

/-- The last name of a path is what an extension is added to. -/
theorem pathNames_append (path : List Char) :
    ∃ init last, pathNames path = init ++ [last] ∧
      ∀ extension, '/' ∉ extension → pathNames (path ++ extension) = init ++ [last ++ extension] := by
  induction path with
  | nil => exact ⟨[], [], rfl, fun extension h => pathNames_of_not_mem h⟩
  | cons c path ih =>
    obtain ⟨init, last, names, extended⟩ := ih
    by_cases slash : c = '/'
    · refine ⟨[] :: init, last, by rw [pathNames, if_pos slash, names, List.cons_append], ?_⟩
      intro extension h
      rw [List.cons_append, pathNames, if_pos slash, extended extension h, List.cons_append]
    · cases init with
      | nil =>
        refine ⟨[], c :: last, by rw [pathNames, if_neg slash, names]; rfl, fun extension h => ?_⟩
        rw [List.cons_append, pathNames, if_neg slash, extended extension h]
        rfl
      | cons first init =>
        refine ⟨(c :: first) :: init, last, by rw [pathNames, if_neg slash, names]; rfl, ?_⟩
        intro extension h
        rw [List.cons_append, pathNames, if_neg slash, extended extension h]
        rfl

theorem pathNames_concat_slash (path : List Char) : pathNames (path ++ ['/']) = pathNames path ++ [[]] := by
  induction path with
  | nil => rfl
  | cons c path ih =>
    by_cases slash : c = '/'
    · rw [List.cons_append, pathNames, pathNames, if_pos slash, if_pos slash, ih, List.cons_append]
    · obtain ⟨init, last, names, -⟩ := pathNames_append path
      rw [List.cons_append, pathNames, pathNames, if_neg slash, if_neg slash, ih, names]
      cases init <;> rfl

/-- The root of a path by its first characters. -/
theorem pathRoot_eq (path : List Char) :
    pathRoot path
      = if path.take 3 = ['/', '/', '/'] then "/"
        else if path.take 2 = ['/', '/'] then "//"
        else if path.take 1 = ['/'] then "/"
        else "" := by
  have starts {a : Char} {tail : List Char} (h : ∀ more, tail ≠ a :: more) (n : Nat) (others : List Char) :
      tail.take (n + 1) ≠ a :: others := by
    cases tail with
    | nil => simp
    | cons x tail =>
      rintro ⟨⟩
      exact h tail rfl
  fun_cases pathRoot path with
  | case1 => simp
  | case2 tail h =>
    have other := starts (fun more eq => h more eq) 0 []
    simp [other]
  | case3 tail _ two =>
    have longer := starts two 1 ['/']
    have long := starts two 0 []
    simp [longer, long]
  | case4 _ _ _ one =>
    have longest := starts one 2 ['/', '/']
    have longer := starts one 1 ['/']
    have long := starts one 0 []
    rw [if_neg longest, if_neg longer, if_neg long]

theorem take_append_eq_slashes_iff {extension : List Char} (h : '/' ∉ extension) (n : Nat)
    (path : List Char) :
    (path ++ extension).take n = List.replicate n '/' ↔ path.take n = List.replicate n '/' := by
  induction n generalizing path with
  | zero => simp
  | succ n ih =>
    cases path with
    | nil =>
      cases extension with
      | nil => simp
      | cons x extension =>
        have other : x ≠ '/' := fun same => h (same ▸ List.mem_cons_self)
        simp [List.replicate_succ, other]
    | cons c path => simp [List.replicate_succ, ih]

theorem pathRoot_append (path : List Char) {extension : List Char} (h : '/' ∉ extension) :
    pathRoot (path ++ extension) = pathRoot path := by
  have three := take_append_eq_slashes_iff h 3 path
  have two := take_append_eq_slashes_iff h 2 path
  have one := take_append_eq_slashes_iff h 1 path
  simp only [List.replicate_succ, List.replicate_zero] at three two one
  simp only [pathRoot_eq, three, two, one]

theorem intercalate_append_last (between : List Char) (names : List (List Char))
    (last extension : List Char) :
    List.intercalate between (names ++ [last ++ extension])
      = List.intercalate between (names ++ [last]) ++ extension := by
  induction names with
  | nil => simp
  | cons name names ih =>
    cases names with
    | nil => simp [List.intercalate_cons_cons]
    | cons next names => simpa [List.intercalate_cons_cons] using ih

theorem intercalate_ne_nil (between : List Char) {names : List (List Char)} {name : List Char}
    (mem : name ∈ names) (filled : name ≠ []) : List.intercalate between names ≠ [] := by
  induction names with
  | nil => cases mem
  | cons first names ih =>
    cases names with
    | nil =>
      cases List.mem_singleton.1 mem
      simpa using filled
    | cons next names =>
      rw [List.intercalate_cons_cons]
      rcases List.mem_cons.1 mem with rfl | mem
      · simp [filled]
      · simp [ih mem]

/-- A path that ends in a name, and not in a slash or a dot. -/
def EndsInName (path : String) : Prop :=
  ∀ last ∈ (pathNames path.toList).getLast?, last ≠ [] ∧ last ≠ ['.']

/-- The names of a path that count. -/
def properNames (path : List Char) : List (List Char) :=
  (pathNames path).filter fun name => name != [] && name != ['.']

theorem toList_tidyPath {path : String} (some : ∃ name ∈ properNames path.toList, name ≠ []) :
    (tidyPath path).toList
      = (pathRoot path.toList).toList ++ List.intercalate ['/'] (properNames path.toList) := by
  have text : (pathRoot path.toList ++
      String.intercalate "/" ((properNames path.toList).map String.ofList)).toList
      = (pathRoot path.toList).toList ++ List.intercalate ['/'] (properNames path.toList) := by
    simp [String.toList_intercalate, Function.comp_def]
  have filled : (pathRoot path.toList ++
      String.intercalate "/" ((properNames path.toList).map String.ofList)).isEmpty = false := by
    obtain ⟨name, mem, filled⟩ := some
    rw [← Bool.not_eq_true, String.isEmpty_iff, ← String.toList_eq_nil_iff, text]
    simp [intercalate_ne_nil _ mem filled]
  unfold tidyPath
  exact (congrArg String.toList (if_neg (Bool.eq_false_iff.1 filled))).trans text

/-- An extension can be added before needless slashes and dots are taken out, and after that. -/
theorem tidyPath_append {path extension : String} (named : EndsInName path) (h : '/' ∉ extension.toList) :
    tidyPath (path ++ extension) = tidyPath path ++ extension := by
  obtain ⟨init, last, names, extended⟩ := pathNames_append path.toList
  obtain ⟨filled, noDot⟩ := named last (by simp [names])
  have still : last ++ extension.toList ≠ [] ∧ last ++ extension.toList ≠ ['.'] := by
    refine ⟨by simp [filled], fun dot => ?_⟩
    rcases List.append_eq_singleton_iff.1 dot with ⟨none, -⟩ | ⟨same, -⟩
    · exact filled none
    · exact noDot same
  have proper : properNames path.toList
      = (init.filter fun name => name != [] && name != ['.']) ++ [last] := by
    simp [properNames, names, filled, noDot]
  have properExtended : properNames (path ++ extension).toList
      = (init.filter fun name => name != [] && name != ['.']) ++ [last ++ extension.toList] := by
    simp [properNames, extended _ h, still]
  have tidy := toList_tidyPath ⟨last, proper ▸ List.mem_append_right _ List.mem_cons_self, filled⟩
  have tidyExtended := toList_tidyPath
    ⟨_, properExtended ▸ List.mem_append_right _ List.mem_cons_self, still.1⟩
  rw [properExtended, String.toList_append, pathRoot_append _ h, intercalate_append_last] at tidyExtended
  rw [← String.toList_inj, tidyExtended, String.toList_append, tidy, proper, List.append_assoc]

namespace Disk

variable {disk : Disk} {place target : List String} {content : ByteArray}

/-! ## Places -/

theorem find?_putIn (entries : List (List String × Entry)) :
    (putIn target content entries).find? (fun entry => entry.1 = place)
      = if place = target then some (target, .file content)
        else entries.find? fun entry => entry.1 = place := by
  induction entries with
  | nil => by_cases same : target = place <;> simp [putIn, same, eq_comm]
  | cons entry entries ih =>
    rw [putIn]
    by_cases here : entry.1 = target
    · by_cases same : place = target
      · simp [here, same]
      · have other : ¬ target = place := fun eq => same eq.symm
        simp [here, same, other]
    · by_cases same : entry.1 = place
      · have other : place ≠ target := same ▸ here
        simp [same, other]
      · simp [here, same, ih]

theorem mem_places_putIn (entries : List (List String × Entry)) :
    place ∈ (putIn target content entries).map Prod.fst ↔
      place = target ∨ place ∈ entries.map Prod.fst := by
  induction entries with
  | nil => simp [putIn]
  | cons entry entries ih =>
    rw [putIn]
    by_cases here : entry.1 = target
    · simp [here]
    · simp only [here, if_false, List.map_cons, List.mem_cons, ih]
      exact or_left_comm

theorem putIn_putIn (before : ByteArray) (entries : List (List String × Entry)) :
    putIn target content (putIn target before entries) = putIn target content entries := by
  induction entries with
  | nil => simp [putIn]
  | cons entry entries ih =>
    by_cases here : entry.1 = target <;> simp [putIn, here, ih]

theorem look_put_self : (disk.put target content).look target = .file target content := by
  simp only [look, put, find?_putIn, if_true]

/-- Nothing changes elsewhere. What lies around the place was there before. -/
theorem look_put_of_ne (other : place ≠ target)
    (around : place <+: target → ∃ e ∈ disk.entries.map Prod.fst, place <+: e) :
    (disk.put target content).look place = disk.look place := by
  have known : ((disk.home :: (putIn target content disk.entries).map Prod.fst).any place.isPrefixOf)
      = (disk.home :: disk.entries.map Prod.fst).any place.isPrefixOf := by
    rw [Bool.eq_iff_iff]
    simp only [List.any_eq_true, List.mem_cons, mem_places_putIn, List.isPrefixOf_iff_prefix]
    constructor
    · rintro ⟨e, rfl | rfl | mem, isPrefix⟩
      · exact ⟨_, .inl rfl, isPrefix⟩
      · obtain ⟨e, mem, isPrefix⟩ := around isPrefix
        exact ⟨e, .inr mem, isPrefix⟩
      · exact ⟨e, .inr mem, isPrefix⟩
    · rintro ⟨e, rfl | mem, isPrefix⟩
      · exact ⟨_, .inl rfl, isPrefix⟩
      · exact ⟨e, .inr (.inr mem), isPrefix⟩
  simp only [look, put, find?_putIn, if_neg other, known]

/-- A file that was just opened holds what is written to it, and nothing else. -/
theorem store_put_empty :
    (disk.put target ByteArray.empty).store target content = disk.put target content := by
  have rest : content ++ ByteArray.empty.extract content.size ByteArray.empty.size = content := by
    rw [ByteArray.extract_eq_empty_iff.2 (by simp), ByteArray.append_empty]
  rw [store, look_put_self]
  simp only [rest, put, putIn_putIn]

/-! ## Walks -/

theorem look_cases (disk : Disk) (p : List String) :
    (∃ content, disk.look p = .file p content ∧ p ∈ disk.entries.map Prod.fst) ∨
      disk.look p = .folder p ∨ disk.look p = .vacant p := by
  fun_cases look disk p with
  | case1 p' content found =>
    have same : p' = p := by simpa using List.find?_some found
    exact .inl ⟨content, rfl, same ▸ List.mem_map_of_mem (List.mem_of_find?_eq_some found)⟩
  | case2 => exact .inr (.inl rfl)
  | case3 => exact .inr (.inl rfl)
  | case4 => exact .inr (.inr rfl)

/-- A name of its own: it does not stay in a folder or go up from it. -/
structure IsProper (name : String) : Prop where
  filled : name ≠ ""
  noDot : name ≠ "."
  noDots : name ≠ ".."

theorem isProper_iff {name : String} : IsProper name ↔ ¬ name.toList <+: ['.', '.'] := by
  have texts : name.toList <+: ['.', '.'] ↔ name = "" ∨ name = "." ∨ name = ".." := by
    simp only [← List.mem_inits, ← String.toList_inj]
    simp
  rw [texts, not_or, not_or]
  exact ⟨fun h => ⟨h.filled, h.noDot, h.noDots⟩, fun ⟨a, b, c⟩ => ⟨a, b, c⟩⟩

theorem IsProper.append {name : String} (proper : IsProper name) (extension : String) :
    IsProper (name ++ extension) := by
  rw [isProper_iff] at proper ⊢
  intro dots
  rw [String.toList_append] at dots
  exact proper ((List.prefix_append _ _).trans dots)

theorem walk_of_isProper {name : String} (proper : IsProper name) (p : List String) :
    disk.walk (.folder p) name = .ok (disk.look (p ++ [name])) := by
  simp [walk, proper.filled, proper.noDot, proper.noDots]

theorem walk_of_not_isProper {name : String} (h : ¬ IsProper name) (p : List String) :
    disk.walk (.folder p) name = .ok (.folder (if name = ".." then p.dropLast else p)) := by
  by_cases up : name = ".."
  · simp [walk, up]
  · have stays : name = "" ∨ name = "." := by
      by_contra goes
      exact h ⟨fun e => goes (.inl e), fun e => goes (.inr e), up⟩
    simp [walk, up, stays]

/-- Only a name in a folder leads to a file. -/
theorem walk_eq_file {spot : Spot} {name : String} (h : disk.walk spot name = .ok (.file place content)) :
    ∃ parent, spot = .folder parent ∧ IsProper name ∧ place = parent ++ [name] ∧
      place ∈ disk.entries.map Prod.fst := by
  cases spot with
  | folder parent =>
    by_cases proper : IsProper name
    · rw [walk_of_isProper proper] at h
      rcases disk.look_cases (parent ++ [name]) with ⟨content, look, mem⟩ | look | look <;> rw [look] at h
      · cases h
        exact ⟨parent, rfl, proper, rfl, mem⟩
      · cases h
      · cases h
    · rw [walk_of_not_isProper proper] at h
      cases h
  | file => cases h
  | vacant =>
    unfold walk at h
    dsimp only at h
    split at h <;> cases h

/-- Only in a folder a name leads to a folder, and it does so wherever these folders are. -/
theorem walk_eq_folder {other : Disk} (folders : ∀ p, disk.look p = .folder p → other.look p = .folder p)
    {spot : Spot} {name : String} (h : disk.walk spot name = .ok (.folder place)) :
    ∃ p, spot = .folder p ∧ other.walk spot name = .ok (.folder place) := by
  cases spot with
  | folder p =>
    refine ⟨p, rfl, ?_⟩
    by_cases proper : IsProper name
    · rw [walk_of_isProper proper] at h ⊢
      rcases disk.look_cases (p ++ [name]) with ⟨content, look, -⟩ | look | look
      · cases look.symm.trans (Except.ok.inj h)
      · rw [folders _ look, ← look, h]
      · cases look.symm.trans (Except.ok.inj h)
    · rwa [walk_of_not_isProper proper] at h ⊢
  | file => cases h
  | vacant =>
    unfold walk at h
    dsimp only at h
    split at h <;> cases h

theorem foldlM_walk_concat {spot result : Spot} (names : List String) (name : String) :
    (names ++ [name]).foldlM disk.walk spot = .ok result ↔
      ∃ middle, names.foldlM disk.walk spot = .ok middle ∧ disk.walk middle name = .ok result := by
  rw [List.foldlM_append]
  cases names.foldlM disk.walk spot with
  | error cause => simp [bind, Except.bind]
  | ok middle => cases step : disk.walk middle name <;> simp [bind, Except.bind, pure, Except.pure, step]

theorem foldlM_walk_eq_folder {other : Disk}
    (folders : ∀ p, disk.look p = .folder p → other.look p = .folder p) {names : List String} {spot : Spot}
    (h : names.foldlM disk.walk spot = .ok (.folder place)) :
    names.foldlM other.walk spot = .ok (.folder place) := by
  induction names using List.reverseRecOn generalizing place with
  | nil => exact h
  | append_singleton names name ih =>
    obtain ⟨middle, front, last⟩ := (foldlM_walk_concat names name).1 h
    obtain ⟨p, rfl, last⟩ := walk_eq_folder folders last
    exact (foldlM_walk_concat names name).2 ⟨_, ih front, last⟩

/-! ## Names in folders -/

/-- A path that leads into a folder and there to a name. -/
structure LeadsTo (disk : Disk) (path : String) (parent : List String) (name : String) : Prop where
  noZero : '\x00' ∉ path.toList
  proper : IsProper name
  through : ∃ front, pathNames path.toList = front ++ [name.toList] ∧
    (front.map String.ofList).foldlM disk.walk
      (.folder (if path.toList.head? = some '/' then [] else disk.home)) = .ok (.folder parent)

/-- A name alone leads into the home. -/
theorem leadsTo_home (disk : Disk) {name : String} (proper : IsProper name) (noSlash : '/' ∉ name.toList)
    (noZero : '\x00' ∉ name.toList) : disk.LeadsTo name disk.home name where
  noZero := noZero
  proper := proper
  through := by
    have relative : name.toList.head? ≠ some '/' := fun slash => noSlash (List.mem_of_head? slash)
    exact ⟨[], pathNames_of_not_mem noSlash, by rw [if_neg relative]; rfl⟩

theorem leadsTo_of_resolve {path : String} (found : disk.resolve path = .ok (.file place content)) :
    ∃ parent name, disk.LeadsTo path parent name ∧ place = parent ++ [name] ∧
      place ∈ disk.entries.map Prod.fst := by
  obtain ⟨front, last, names, -⟩ := pathNames_append path.toList
  by_cases zero : path.toList.contains '\x00' = true
  · rw [resolve, if_pos zero] at found
    cases found
  · rw [resolve, if_neg zero, names, List.map_append, List.map_singleton, foldlM_walk_concat] at found
    obtain ⟨middle, through, step⟩ := found
    obtain ⟨parent, rfl, proper, at_, mem⟩ := walk_eq_file step
    refine ⟨parent, String.ofList last, ⟨?_, proper, front, ?_, through⟩, at_, mem⟩
    · simpa using zero
    · simpa using names

namespace LeadsTo

variable {path name : String} {parent : List String}

theorem resolve_eq (leads : disk.LeadsTo path parent name) :
    disk.resolve path = .ok (disk.look (parent ++ [name])) := by
  obtain ⟨front, names, through⟩ := leads.through
  have zero : ¬ path.toList.contains '\x00' = true := by simpa using leads.noZero
  rw [resolve, if_neg zero, names, List.map_append, List.map_singleton, foldlM_walk_concat]
  exact ⟨_, through, by rw [String.ofList_toList, walk_of_isProper leads.proper]⟩

/-- An extension is added to the name. -/
theorem append (leads : disk.LeadsTo path parent name) {extension : String}
    (noSlash : '/' ∉ extension.toList) (noZero : '\x00' ∉ extension.toList) :
    disk.LeadsTo (path ++ extension) parent (name ++ extension) := by
  obtain ⟨front, names, through⟩ := leads.through
  obtain ⟨init, last, known, extended⟩ := pathNames_append path.toList
  obtain ⟨rfl, same⟩ := List.append_inj' (known.symm.trans names) rfl
  have filled : path.toList ≠ [] := by
    intro empty
    rw [empty] at known
    obtain ⟨-, none⟩ := List.append_inj' (show [] ++ [[]] = init ++ [last] from known) rfl
    exact leads.proper.filled (String.toList_eq_nil_iff.1 (List.singleton_inj.1 (none.trans same)).symm)
  refine ⟨by simp [leads.noZero, noZero], leads.proper.append extension, init, ?_, ?_⟩
  · rw [String.toList_append, String.toList_append, extended _ noSlash, List.singleton_inj.1 same]
  · rwa [String.toList_append, List.head?_append_of_ne_nil _ filled]

/-- A path leads to the same name on a disk that has the folders of the first one. -/
theorem mono (leads : disk.LeadsTo path parent name) {other : Disk} (home : other.home = disk.home)
    (folders : ∀ p, disk.look p = .folder p → other.look p = .folder p) :
    other.LeadsTo path parent name := by
  obtain ⟨front, names, through⟩ := leads.through
  exact ⟨leads.noZero, leads.proper, front, names, home ▸ foldlM_walk_eq_folder folders through⟩

theorem getLast?_ne_slash (leads : disk.LeadsTo path parent name) : path.toList.getLast? ≠ some '/' := by
  intro slash
  obtain ⟨front, names, -⟩ := leads.through
  obtain ⟨path', same⟩ := List.getLast?_eq_some_iff.1 slash
  rw [same, pathNames_concat_slash] at names
  obtain ⟨-, empty⟩ := List.append_inj' names rfl
  exact leads.proper.filled (String.toList_eq_nil_iff.1 (List.singleton_inj.1 empty).symm)

theorem create_eq (leads : disk.LeadsTo path parent name)
    (free : ∀ p, disk.look (parent ++ [name]) ≠ .folder p) :
    disk.create path = .ok (parent ++ [name], disk.put (parent ++ [name]) ByteArray.empty) := by
  rw [create, leads.resolve_eq]
  rcases disk.look_cases (parent ++ [name]) with ⟨content, look, -⟩ | look | look
  · rw [look]
  · exact absurd look (free _)
  · rw [look]
    exact if_neg leads.getLast?_ne_slash

end LeadsTo

/-! ## Beside a file -/

theorem look_put_beside {parent : List String} {name beside : String}
    (mem : parent ++ [name] ∈ disk.entries.map Prod.fst) (other : place ≠ parent ++ [beside]) :
    (disk.put (parent ++ [beside]) content).look place = disk.look place := by
  refine look_put_of_ne other fun isPrefix => ⟨_, mem, ?_⟩
  rcases List.prefix_concat_iff.1 isPrefix with same | front
  · exact absurd same other
  · exact front.trans (List.prefix_append _ _)

theorem has_of_read {path : String} (h : disk.read path = .ok content) : disk.has path = true := by
  unfold read at h
  unfold has
  split at h <;> simp_all

/-- A file can be written beside another one, unless a folder stands there. It is read back under the
same path, and nothing else on the disk changes. -/
theorem exists_place_beside {path extension : String} {before : ByteArray} (h : disk.read path = .ok before)
    (noSlash : '/' ∉ extension.toList) (noZero : '\x00' ∉ extension.toList)
    (free : ∀ p, disk.resolve (path ++ extension) ≠ .ok (.folder p)) :
    ∃ parent name,
      disk.create (path ++ extension)
        = .ok (parent ++ [name ++ extension], disk.put (parent ++ [name ++ extension]) ByteArray.empty) ∧
      ∀ content, (disk.put (parent ++ [name ++ extension]) content).read (path ++ extension) = .ok content ∧
        ∀ p, p ≠ parent ++ [name ++ extension] →
          (disk.put (parent ++ [name ++ extension]) content).look p = disk.look p := by
  obtain ⟨place, found⟩ : ∃ place, disk.resolve path = .ok (.file place before) := by
    unfold read at h
    split at h <;> cases h
    exact ⟨_, ‹_›⟩
  obtain ⟨parent, name, leads, rfl, mem⟩ := leadsTo_of_resolve found
  have beside := leads.append noSlash noZero
  have vacant (p : List String) : disk.look (parent ++ [name ++ extension]) ≠ .folder p := fun look =>
    free p (by rw [beside.resolve_eq, look])
  refine ⟨parent, name, beside.create_eq vacant, fun content => ?_⟩
  have elsewhere (p : List String) (other : p ≠ parent ++ [name ++ extension]) :
      (disk.put (parent ++ [name ++ extension]) content).look p = disk.look p :=
    look_put_beside mem other
  refine ⟨?_, elsewhere⟩
  have still : (disk.put (parent ++ [name ++ extension]) content).LeadsTo (path ++ extension) parent
      (name ++ extension) :=
    beside.mono rfl fun p look => by rw [elsewhere p fun same => vacant p (same ▸ look), look]
  rw [read, still.resolve_eq, look_put_self]

end Disk

end Abacus
