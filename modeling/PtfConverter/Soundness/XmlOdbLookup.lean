import PtfConverter.Model.XmlOdb

/-! # Every key of a dump is found under its path

In each directory of a dump the names are different, so that the search for a path element passes
over the text, the comments and all other entries, and ends at the entry of that name. The elements
of a joined path come back one by one, and the search goes down as the path does.
-/

namespace PtfConverter.XmlOdb

/-- A node of the ODB: what a search for a name looks at. -/
def Node.isEntry (node : Node) : Bool := node.isKey || node.isDir || node.isKeyArray

/-- A name that is one element of a path. -/
structure IsName (name : CString) : Prop where
  nonempty : name ≠ []
  free : '/' ∉ name
  short : name.length ≤ kElemSize

/-- What two siblings are called is not the same up to case. -/
def Apart (node other : Node) : Prop :=
  ∀ name another, node.GetAttrValue "name".toList = some name →
    other.GetAttrValue "name".toList = some another →
    sameCase another name = false

/-- The nodes of one directory: every entry has a name of its own. -/
structure Level (siblings : List Node) : Prop where
  named : ∀ node ∈ siblings, node.isEntry →
    ∃ name, node.GetAttrValue "name".toList = some name ∧ IsName name
  apart : (siblings.filter Node.isEntry).Pairwise Apart

/-- An array has a type, and counts its values. -/
structure IsArray (array : Node) (typevalue num_values : CString) : Prop where
  typed : array.GetAttrValue "type".toList = some typevalue
  numbered : array.GetAttrValue "num_values".toList = some num_values
  counted : atoi num_values = (array.GetChildren.filter Node.isValue).length

/-- A tree of directories, as a dump has it. -/
inductive Dump : List Node → Prop where
  | intro {siblings : List Node} (level : Level siblings)
      (arrays : ∀ node ∈ siblings, node.isKeyArray →
        ∃ typevalue num_values, IsArray node typevalue num_values)
      (below : ∀ node ∈ siblings, node.isDir → Dump node.GetChildren) : Dump siblings

/-- The key or array that the names of a path lead to, with its next siblings. -/
inductive Located : List Node → List CString → List Node → Prop where
  | key {before after : List Node} {node : Node} {name : CString} (kind : node.isKey || node.isKeyArray)
      (called : node.GetAttrValue "name".toList = some name) :
      Located (before ++ node :: after) [name] (node :: after)
  | dir {before after found : List Node} {node : Node} {name : CString} {names : List CString}
      (kind : node.isDir)
      (called : node.GetAttrValue "name".toList = some name)
        (below : Located node.GetChildren names found) :
      Located (before ++ node :: after) (name :: names) found

variable {name rest : CString}

theorem skipSlashes_slash (path : CString) : skipSlashes ('/' :: path) = skipSlashes path := rfl

theorem skipSlashes_name (isName : IsName name) (rest : CString) :
    skipSlashes (name ++ rest) = name ++ rest := by
  cases name with
  | nil => exact absurd rfl isName.nonempty
  | cons c name =>
    have other : (c == '/') = false :=
      beq_false_of_ne fun same => isName.free (same ▸ List.mem_cons_self)
    rw [skipSlashes, List.cons_append, List.dropWhile_cons, other]
    rfl

/-- The element ends where its name does: at a slash, or with the path. -/
theorem nextElem_name (isName : IsName name) (ends : ∀ c tail, rest = c :: tail → c = '/') :
    nextElem (name ++ rest) = name := by
  have inside : ∀ c ∈ name, (c != '/') = true := fun c member =>
    bne_iff_ne.mpr fun same => isName.free (same ▸ member)
  rw [nextElem, List.take_append, List.take_of_length_le isName.short,
    List.takeWhile_append_of_pos inside]
  cases rest with
  | nil => rw [List.take_nil, List.takeWhile_nil, List.append_nil]
  | cons c tail =>
    obtain rfl := ends c tail rfl
    cases kElemSize - name.length with
    | zero => rw [List.take_zero, List.takeWhile_nil, List.append_nil]
    | succ n =>
      rw [List.take_succ_cons, List.takeWhile_cons]
      exact List.append_nil name

theorem Level.tail {node : Node} {siblings : List Node} (level : Level (node :: siblings)) :
    Level siblings := by
  refine ⟨fun other member => level.named other (List.mem_cons_of_mem _ member), ?_⟩
  exact level.apart.sublist ((List.sublist_cons_self node siblings).filter _)

theorem searchSiblings_cons (elem : CString) (node : Node) (next : List Node) :
    searchSiblings elem (node :: next) =
      if node.isEntry then
        match node.GetAttrValue "name".toList with
        | none => .error .nullName
        | some namevalue =>
            if sameCase elem namevalue then
              if node.isDir then .ok (.descend node.GetChildren) else .ok (.found (node :: next))
            else searchSiblings elem next
      else searchSiblings elem next := by
  rw [searchSiblings, ← Bool.not_or, ← Bool.not_or]
  change (if !node.isEntry then _ else _) = _
  cases node.isEntry <;> rfl

theorem sameCase_self (name : CString) : sameCase name name = true := beq_self_eq_true _

theorem sameCase_congr {elem name : CString} (same : sameCase elem name) (other : CString) :
    sameCase elem other = sameCase name other := by
  rw [sameCase, sameCase, beq_iff_eq.mp same]

/-- The search passes over the nodes in front of the entry whose name is the element up to case. -/
theorem searchSiblings_called {before after : List Node} {node : Node} {elem : CString}
    (level : Level (before ++ node :: after)) (entry : node.isEntry)
    (called : node.GetAttrValue "name".toList = some name) (same : sameCase elem name) :
    searchSiblings elem (before ++ node :: after) =
      .ok (if node.isDir then .descend node.GetChildren else .found (node :: after)) := by
  induction before with
  | nil =>
    rw [List.nil_append, searchSiblings_cons, if_pos entry]
    simp only [called, same, if_true]
    split_ifs <;> rfl
  | cons other before ih =>
    have later := ih level.tail
    rw [List.cons_append, searchSiblings_cons]
    by_cases looked : other.isEntry
    · obtain ⟨namevalue, named, _⟩ := level.named other List.mem_cons_self looked
      have apart := level.apart
      rw [List.cons_append, List.filter_cons_of_pos looked, List.pairwise_cons] at apart
      have different := apart.1 node
        (List.mem_filter.mpr ⟨List.mem_append_right _ List.mem_cons_self, entry⟩)
        namevalue name named called
      rw [← sameCase_congr same] at different
      rw [if_pos looked]
      simp only [named, different, Bool.false_eq_true, if_false]
      exact later
    · rw [if_neg looked]
      exact later

/-- The search for a name ends at its entry. -/
theorem searchSiblings_entry {before after : List Node} {node : Node}
    (level : Level (before ++ node :: after))
    (entry : node.isEntry) (called : node.GetAttrValue "name".toList = some name) :
    searchSiblings name (before ++ node :: after) =
      .ok (if node.isDir then .descend node.GetChildren else .found (node :: after)) :=
  searchSiblings_called level entry called (sameCase_self name)

theorem followPath_slash (node : List Node) (path : CString) :
    followPath node ('/' :: path) = followPath node path := by
  rw [followPath, followPath, skipSlashes_slash]

theorem followPath_replicate (node : List Node) (lead : ℕ) (path : CString) :
    followPath node (List.replicate lead '/' ++ path) = followPath node path := by
  induction lead with
  | zero => rfl
  | succ lead ih => exact (followPath_slash node _).trans ih

/-- One element of a path, in a directory. -/
theorem followPath_descend {node children : List Node} (isName : IsName name)
    (ends : ∀ c tail, rest = c :: tail → c = '/')
    (search : searchSiblings name node = .ok (.descend children)) :
    followPath node (name ++ rest) = followPath children rest := by
  have more : name ++ rest ≠ [] := List.append_ne_nil_of_left_ne_nil isName.nonempty rest
  rw [followPath, skipSlashes_name isName, dif_neg more, nextElem_name isName ends]
  simp only [search, List.drop_left]

theorem followPath_found {node found : List Node} (isName : IsName name)
    (ends : ∀ c tail, rest = c :: tail → c = '/')
    (search : searchSiblings name node = .ok (.found found)) :
    followPath node (name ++ rest) = .ok found := by
  have more : name ++ rest ≠ [] := List.append_ne_nil_of_left_ne_nil isName.nonempty rest
  rw [followPath, skipSlashes_name isName, dif_neg more, nextElem_name isName ends]
  simp only [search]

/-- The names of a path, each behind a slash. -/
def slashed (names : List CString) : CString := names.flatMap ('/' :: ·)

theorem slashed_cons (name : CString) (names : List CString) :
    slashed (name :: names) = '/' :: (name ++ slashed names) := rfl

theorem slashed_ends (names : List CString) (c : Char) (tail : CString)
    (split : slashed names = c :: tail) : c = '/' := by
  cases names with
  | nil => cases split
  | cons name names => exact (List.cons.inj split).1.symm

/-- The names of a path that leads somewhere are joined by slashes. -/
theorem slash_intercalate {names : List CString} (some : names ≠ []) :
    '/' :: ['/'].intercalate names = slashed names := by
  induction names with
  | nil => exact absurd rfl some
  | cons name names ih =>
    cases names with
    | nil => rfl
    | cons next names =>
      have joined := ih (List.cons_ne_nil next names)
      change '/' :: (name ++ '/' :: ['/'].intercalate (next :: names)) = _
      rw [joined]
      rfl

namespace Node

variable {node : Node}

theorem isDir_of_key (kind : node.isKey || node.isKeyArray) : node.isDir = false := by
  rw [isDir, beq_eq_false_iff_ne]
  intro same
  rw [isKey, isKeyArray, same] at kind
  exact absurd kind (by decide)

theorem isEntry_of_key (kind : node.isKey || node.isKeyArray) : node.isEntry := by
  rw [isEntry, Bool.or_right_comm, kind, Bool.true_or]

theorem isEntry_of_dir (kind : node.isDir) : node.isEntry := by
  rw [isEntry, kind, Bool.or_true, Bool.true_or]

end Node

/-- The names lead where the search goes. -/
theorem followPath_located {siblings found : List Node} {names : List CString} (dump : Dump siblings)
    (located : Located siblings names found) : followPath siblings (slashed names) = .ok found := by
  induction located with
  | @key before after node name kind called =>
    obtain ⟨level, _, _⟩ := dump
    have entry := Node.isEntry_of_key kind
    obtain ⟨named, called', isName⟩ :=
      level.named node (List.mem_append_right _ List.mem_cons_self) entry
    obtain rfl := Option.some.inj (called'.symm.trans called)
    have search := searchSiblings_entry level entry called
    rw [Node.isDir_of_key kind, if_neg Bool.false_ne_true] at search
    rw [slashed_cons, followPath_slash]
    exact followPath_found isName (slashed_ends []) search
  | @dir before after found node name names kind called _ ih =>
    obtain ⟨level, _, subdirectories⟩ := dump
    have entry := Node.isEntry_of_dir kind
    have member : node ∈ before ++ node :: after := List.mem_append_right _ List.mem_cons_self
    obtain ⟨named, called', isName⟩ := level.named node member entry
    obtain rfl := Option.some.inj (called'.symm.trans called)
    have search := searchSiblings_entry level entry called
    rw [if_pos kind] at search
    rw [slashed_cons, followPath_slash, followPath_descend isName (slashed_ends names) search]
    exact ih (subdirectories node member kind)

/-- An array that names lead to is one of the dump's. -/
theorem Located.isArray {siblings next : List Node} {names : List CString} {node : Node}
    (located : Located siblings names (node :: next)) (dump : Dump siblings) (kind : node.isKeyArray) :
    ∃ typevalue num_values, IsArray node typevalue num_values := by
  generalize target : node :: next = found at located
  induction located with
  | key =>
    obtain ⟨rfl, rfl⟩ := List.cons.inj target
    obtain ⟨_, arrays, _⟩ := dump
    exact arrays node (List.mem_append_right _ List.mem_cons_self) kind
  | @dir before after found directory name names isDir called _ ih =>
    obtain ⟨_, _, subdirectories⟩ := dump
    exact ih (subdirectories directory (List.mem_append_right _ List.mem_cons_self) isDir) target

theorem Located.names_ne_nil {siblings found : List Node} {names : List CString}
    (located : Located siblings names found) : names ≠ [] := by
  cases located with
  | key => exact List.cons_ne_nil _ _
  | dir => exact List.cons_ne_nil _ _

/-- The whole path, with any slashes in front. -/
theorem followPath_joined {siblings found : List Node} {names : List CString} (dump : Dump siblings)
    (located : Located siblings names found) (lead : ℕ) :
    followPath siblings (List.replicate lead '/' ++ ['/'].intercalate names) = .ok found := by
  have whole := followPath_located dump located
  rw [← slash_intercalate located.names_ne_nil, followPath_slash] at whole
  exact (followPath_replicate siblings lead _).trans whole

/-- The loop counts the values and stops at the one with the number. -/
theorem searchValues_value (array : List Node) {value : Node} {children : List Node} {number : ℕ}
    (numbered : (children.filter Node.isValue)[number]? = some value) (i : ℕ) :
    ∃ next, searchValues array ((i + number : ℕ) : ℤ) i children = value :: next := by
  induction children generalizing i number with
  | nil => cases numbered
  | cons elem children ih =>
    rw [searchValues]
    by_cases kind : elem.isValue
    · rw [List.filter_cons_of_pos kind] at numbered
      rw [if_pos kind]
      cases number with
      | zero =>
        obtain rfl := Option.some.inj numbered
        exact ⟨children, if_pos rfl⟩
      | succ number =>
        obtain ⟨next, found⟩ := ih numbered (i + 1)
        have before : (i : ℤ) ≠ ((i + (number + 1) : ℕ) : ℤ) := by omega
        refine ⟨next, ?_⟩
        rw [if_neg before, ← Nat.cast_succ, Nat.succ_eq_add_one, ← Nat.add_assoc, Nat.add_right_comm]
        exact found
    · rw [List.filter_cons_of_neg kind] at numbered
      rw [if_neg kind]
      exact ih numbered i

/-- The array that a path leads to, asked for one of its values. -/
theorem FindArrayPath_located {odb : Node} {names : List CString} {node : Node} {next : List Node}
    (dump : Dump odb.GetChildren) (located : Located odb.GetChildren names (node :: next))
    (lead : ℕ) {typevalue num_values : CString} (kind : node.isKeyArray)
    (array : IsArray node typevalue num_values) (type : CString) (index : ℤ) :
    FindArrayPath (some odb) [] (List.replicate lead '/' ++ ['/'].intercalate names) type index =
      if !sameCase typevalue type then .ok []
      else if index < 0 ∨ atoi num_values ≤ index then .ok []
      else .ok (searchValues (node :: next) index 0 node.GetChildren) := by
  have again : FindPath (some odb) odb.GetChildren
      (List.replicate lead '/' ++ ['/'].intercalate names) =
      .ok (node :: next) := by
    rw [FindPath, ite_self]
    exact followPath_joined dump located lead
  rw [FindArrayPath, List.isEmpty_nil, if_pos rfl, again]
  change (if !(match node.GetAttrValue "type".toList with
    | none => false
    | some typevalue => sameCase typevalue type) then _ else _) = _
  rw [array.typed, array.numbered, kind]
  dsimp only
  split_ifs <;> rfl

/-- Below the root of a dump, the joined names of a key or an array lead to it. Asked with
the array's type, each number below its count gives the value of that number; any other
number or type gives nothing. -/
theorem lookup_complete {odb : Node} {names : List CString} {node : Node} {next : List Node}
    (dump : Dump odb.GetChildren) (located : Located odb.GetChildren names (node :: next)) (lead : ℕ) :
    FindPath (some odb) [] (List.replicate lead '/' ++ ['/'].intercalate names) = .ok (node :: next) ∧
      (node.isKeyArray → ∃ typevalue num_values, IsArray node typevalue num_values ∧
        ∀ (type : CString) (index : ℤ),
          (sameCase typevalue type → 0 ≤ index → index < atoi num_values → ∃ value after,
            (node.GetChildren.filter Node.isValue)[index.toNat]? = some value ∧
              FindArrayPath (some odb) []
                (List.replicate lead '/' ++ ['/'].intercalate names) type index =
                .ok (value :: after)) ∧
          (sameCase typevalue type = false ∨ index < 0 ∨ atoi num_values ≤ index →
            FindArrayPath (some odb) []
              (List.replicate lead '/' ++ ['/'].intercalate names) type index =
              .ok [])) := by
  refine ⟨followPath_joined dump located lead, fun kind => ?_⟩
  obtain ⟨typevalue, num_values, array⟩ := located.isArray dump kind
  refine ⟨typevalue, num_values, array, fun type index => ⟨fun typed low high => ?_, fun outside => ?_⟩⟩
  · obtain ⟨number, rfl⟩ := Int.eq_ofNat_of_zero_le low
    rw [array.counted, Int.ofNat_lt] at high
    obtain ⟨after, reached⟩ := searchValues_value (node :: next) (List.getElem?_eq_getElem high) 0
    refine ⟨_, after, List.getElem?_eq_getElem high, ?_⟩
    have inside : ¬((number : ℤ) < 0 ∨ atoi num_values ≤ number) := by
      rw [array.counted]
      omega
    rw [FindArrayPath_located dump located lead kind array, typed, if_neg (by decide), if_neg inside]
    rw [Nat.zero_add] at reached
    exact congrArg Except.ok reached
  · rw [FindArrayPath_located dump located lead kind array]
    cases typed : sameCase typevalue type with
    | false => exact if_pos rfl
    | true =>
      rw [typed] at outside
      have bounds := outside.resolve_left (by decide)
      rw [if_neg (by decide), if_pos bounds]

/-- Between text there is one entry. -/
theorem eq_of_isEntry {before node after other : Node} (first : before.isEntry = false)
    (last : after.isEntry = false) (member : other ∈ [before, node, after])
    (entry : other.isEntry) : other = node := by
  rcases List.mem_cons.mp member with rfl | member
  · exact absurd (first.symm.trans entry) Bool.false_ne_true
  · rcases List.mem_cons.mp member with rfl | member
    · rfl
    · obtain rfl := List.mem_singleton.mp member
      exact absurd (last.symm.trans entry) Bool.false_ne_true

theorem Dump.single {before node after : Node} (first : before.isEntry = false)
    (last : after.isEntry = false)
    (called : ∃ name, node.GetAttrValue "name".toList = some name ∧ IsName name)
    (array : node.isKeyArray → ∃ typevalue num_values, IsArray node typevalue num_values)
    (below : node.isDir → Dump node.GetChildren) : Dump [before, node, after] := by
  refine .intro ⟨fun other member entry => ?_, ?_⟩ (fun other member kind => ?_)
    (fun other member kind => ?_)
  · obtain rfl := eq_of_isEntry first last member entry
    exact called
  · rw [List.filter_cons, first, List.filter_cons, List.filter_cons, last]
    cases node.isEntry
    · exact List.Pairwise.nil
    · exact List.pairwise_singleton _ _
  · obtain rfl := eq_of_isEntry first last member
      (Node.isEntry_of_key (Bool.or_eq_true_iff.mpr (.inr kind)))
    exact array kind
  · obtain rfl := eq_of_isEntry first last member (Node.isEntry_of_dir kind)
    exact below kind

def text (address : ℕ) : Node := .mk address "text".toList [] []

def value (address : ℕ) : Node := .mk address "value".toList [] []

/-- Two numbers, with text in between. -/
def volts : Node :=
  .mk 3 "keyarray".toList [("name".toList, "Volts".toList), ("type".toList, "FLOAT".toList),
    ("num_values".toList, "2".toList)] [text 4, value 5, text 6, value 7, text 8]

def equipment : Node := .mk 1 "dir".toList [("name".toList, "Equipment".toList)] [text 2, volts, text 9]

def oneArray : Node := .mk 0 "odb".toList [] [text 10, equipment, text 11]

theorem oneArray_dump : Dump oneArray.GetChildren := by
  have name : ∀ name : CString, name ≠ [] ∧ '/' ∉ name ∧ name.length ≤ 256 → IsName name :=
    fun _ valid => ⟨valid.1, valid.2.1, valid.2.2⟩
  have inside : Dump equipment.GetChildren :=
    .single rfl rfl ⟨"Volts".toList, rfl, name _ (by decide)⟩
      (fun _ => ⟨"FLOAT".toList, "2".toList, rfl, rfl, rfl⟩) (fun isDir => absurd isDir (by decide))
  exact .single rfl rfl ⟨"Equipment".toList, rfl, name _ (by decide)⟩
    (fun isArray => absurd isArray (by decide))
    (fun _ => inside)

theorem volts_located :
    Located oneArray.GetChildren ["Equipment".toList, "Volts".toList] [volts, text 9] :=
  by
  have array : Located equipment.GetChildren ["Volts".toList] [volts, text 9] :=
    @Located.key [text 2] [text 9] volts _ rfl rfl
  exact @Located.dir [text 10] [text 11] _ equipment _ _ rfl rfl array

/-- The array is found, and its second value. -/
theorem lookup_complete_oneArray :
    FindPath (some oneArray) [] "/Equipment/Volts".toList = .ok [volts, text 9] ∧
      ∃ value after, (volts.GetChildren.filter Node.isValue)[1]? = some value ∧
        FindArrayPath (some oneArray) [] "/Equipment/Volts".toList "float".toList 1 =
          .ok (value :: after) := by
  obtain ⟨found, values⟩ := lookup_complete oneArray_dump volts_located 1
  obtain ⟨typevalue, num_values, array, numbered⟩ := values rfl
  obtain rfl : "FLOAT".toList = typevalue := Option.some.inj array.typed
  obtain rfl : "2".toList = num_values := Option.some.inj array.numbered
  exact ⟨found, (numbered "float".toList 1).1 rfl (by decide) (by decide)⟩

end PtfConverter.XmlOdb
