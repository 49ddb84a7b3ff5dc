import Mathlib.Data.List.Infix
import Mathlib.Data.List.Pairwise
import Mathlib.Data.List.TakeWhile
import PtfConverter.Soundness.XmlOdbLookup

/-! # What a path that names nothing finds

A path is cut into pieces of at most 256 characters at its slashes, and the search goes from one
directory to the next until a piece has no entry. It stops at the first key, whatever follows in
the path, and an element that is too long is looked up piece by piece. So the null pointer comes back
when no initial part of the pieces names a key, and they do not end in a directory with entries.
-/

namespace PtfConverter.XmlOdb

/-- The name attribute of a node is the element of a path, up to case. -/
def Node.called (node : Node) (elem : CString) : Bool :=
  match node.GetAttrValue "name".toList with
  | none => false
  | some name => sameCase elem name

/-- The elements are the names of directories down to a node of some kind. -/
def Named (kind : Node → Bool) : List CString → List Node → Prop
  | [], _ => False
  | elem :: elems, siblings =>
      ∃ node ∈ siblings, node.called elem ∧
        (elems = [] ∧ kind node ∨ node.isDir ∧ Named kind elems node.GetChildren)

instance Named.decidable (kind : Node → Bool) : (names : List CString) → (siblings : List Node) →
    Decidable (Named kind names siblings)
  | [], _ => inferInstanceAs (Decidable False)
  | _ :: names, siblings =>
      have := Named.decidable kind names
      inferInstanceAs (Decidable (∃ node ∈ siblings, _))

/-- A key or an array of keys. -/
def Node.isLeaf (node : Node) : Bool := node.isKey || node.isKeyArray

/-- A directory with something in it. -/
def Node.isFullDir (node : Node) : Bool := node.isDir && !node.GetChildren.isEmpty

/-- The parts of a path between its slashes that are not empty. -/
def elements (path : CString) : List CString := (path.splitOn '/').filter (!·.isEmpty)

/-- The parts of a path that are looked up one after the other. -/
def pieces (path : CString) : List CString :=
  if _ended : skipSlashes path = [] then []
  else nextElem (skipSlashes path) :: pieces
    ((skipSlashes path).drop (nextElem (skipSlashes path)).length)
termination_by path.length
decreasing_by exact drop_nextElem_lt _ended

/-- The search for one piece after the other. -/
def walk : List CString → List Node → Except Fault (List Node)
  | [], node => .ok node
  | elem :: elems, node =>
      match searchSiblings elem node with
      | .error fault => .error fault
      | .ok .past => walk elems []
      | .ok (.descend children) => walk elems children
      | .ok (.found node) => .ok node

theorem followPath_eq_walk (node : List Node) (path : CString) :
    followPath node path = walk (pieces path) node := by
  fun_induction followPath node path with
  | case1 node path ended => rw [pieces, dif_pos ended, walk]
  | case2 node path ended elem fault search =>
    rw [pieces, dif_neg ended, walk, search]
  | case3 node path ended elem search ih =>
    rw [pieces, dif_neg ended, walk, search, ih]
  | case4 node path ended elem children search ih =>
    rw [pieces, dif_neg ended, walk, search, ih]
  | case5 node path ended elem found search =>
    rw [pieces, dif_neg ended, walk, search]

theorem elements_slash (path : CString) : elements ('/' :: path) = elements path := by
  have split := List.splitOn_append_cons_self (a := '/') [] path
  rw [List.nil_append] at split
  rw [elements, split]
  rfl

theorem elements_skipSlashes (path : CString) : elements (skipSlashes path) = elements path := by
  induction path with
  | nil => rfl
  | cons c path ih =>
    rw [skipSlashes, List.dropWhile_cons]
    split
    · rename_i slash
      rw [beq_iff_eq.mp slash, elements_slash]
      exact ih
    · rfl

/-- The first element of a path that does not begin with a slash. -/
theorem elements_name {name rest : CString} (nonempty : name ≠ []) (free : '/' ∉ name)
    (ends : ∀ c tail, rest = c :: tail → c = '/') :
    elements (name ++ rest) = name :: elements rest := by
  have kept : (!name.isEmpty) = true := by simpa using nonempty
  cases rest with
  | nil =>
    rw [List.append_nil, elements, List.splitOn_eq_singleton free, List.filter_cons, if_pos kept]
    rfl
  | cons c tail =>
    obtain rfl := ends c tail rfl
    rw [elements_slash, elements, List.splitOn_append_cons_self_of_not_mem free, List.filter_cons,
      if_pos kept]
    rfl

/-- What stands behind the first element begins with a slash. -/
theorem dropWhile_ends (path : CString) (c : Char) (tail : CString)
    (split : path.dropWhile (· != '/') = c :: tail) : c = '/' := by
  have first := List.head?_dropWhile_not (· != '/') path
  rw [split] at first
  simpa using first

theorem takeWhile_free (path : CString) : '/' ∉ path.takeWhile (· != '/') := by
  intro member
  have kept := List.mem_takeWhile_imp member
  simp at kept

/-- Without an element that is too long, the pieces of a path are its elements. -/
theorem pieces_eq_elements (path : CString) (short : ∀ elem ∈ elements path, elem.length ≤ kElemSize) :
    pieces path = elements path := by
  induction path using pieces.induct with
  | case1 path ended =>
    rw [pieces, dif_pos ended, ← elements_skipSlashes, ended]
    rfl
  | case2 path more ih =>
    rw [pieces, dif_neg more]
    rw [← elements_skipSlashes] at short ⊢
    set skipped := skipSlashes path
    have split : skipped.takeWhile (· != '/') ++ skipped.dropWhile (· != '/') = skipped :=
      List.takeWhile_append_dropWhile
    have nonempty : skipped.takeWhile (· != '/') ≠ [] := by
      cases first : skipped with
      | nil => exact absurd first more
      | cons c rest =>
        rw [List.takeWhile_cons, bne, head_skipSlashes first]
        exact List.cons_ne_nil _ _
    have whole := elements_name nonempty (takeWhile_free skipped) (dropWhile_ends skipped)
    rw [split] at whole
    rw [whole] at short ⊢
    have isName : IsName (skipped.takeWhile (· != '/')) :=
      ⟨nonempty, takeWhile_free skipped, short _ List.mem_cons_self⟩
    have elem : nextElem skipped = skipped.takeWhile (· != '/') := by
      have next := nextElem_name isName (dropWhile_ends skipped)
      rwa [split] at next
    have behind : (skipped.takeWhile (· != '/') ++ skipped.dropWhile (· != '/')).drop
        (skipped.takeWhile (· != '/')).length = skipped.dropWhile (· != '/') := List.drop_left
    rw [split] at behind
    rw [elem, behind] at ih ⊢
    rw [ih fun elem member => short elem (List.mem_cons_of_mem _ member)]

theorem Node.called_iff {node : Node} {elem : CString} :
    node.called elem ↔ ∃ name, node.GetAttrValue "name".toList = some name ∧ sameCase elem name := by
  rw [Node.called]
  cases node.GetAttrValue "name".toList <;> simp

theorem Apart.not_called {node other : Node} {elem : CString} (apart : Apart node other)
    (first : node.called elem) (second : other.called elem) : False := by
  obtain ⟨name, named, same⟩ := Node.called_iff.mp first
  obtain ⟨another, namedToo, sameToo⟩ := Node.called_iff.mp second
  have different := apart name another named namedToo
  rw [sameCase, beq_eq_false_iff_ne] at different
  exact different ((beq_iff_eq.mp sameToo).symm.trans (beq_iff_eq.mp same))

instance Apart.symm : Std.Symm Apart where
  symm node other apart name another named namedToo := by
    have different := apart another name namedToo named
    rw [sameCase, beq_eq_false_iff_ne] at different ⊢
    exact different.symm

/-- In one directory a name belongs to one entry. -/
theorem Level.unique {siblings : List Node} (level : Level siblings) {node other : Node}
    {elem : CString} (member : node ∈ siblings) (entry : node.isEntry) (first : node.called elem)
    (memberToo : other ∈ siblings) (entryToo : other.isEntry) (second : other.called elem) :
    other = node := by
  by_contra differ
  have apart := level.apart.forall (List.mem_filter.mpr ⟨memberToo, entryToo⟩)
    (List.mem_filter.mpr ⟨member, entry⟩) differ
  exact apart.not_called second first

/-- The search ends at the entry with the name. -/
theorem Level.search {siblings : List Node} (level : Level siblings) {node : Node} {elem : CString}
    (member : node ∈ siblings) (entry : node.isEntry) (called : node.called elem) :
    ∃ next, searchSiblings elem siblings =
      .ok (if node.isDir then .descend node.GetChildren else .found (node :: next)) := by
  obtain ⟨before, after, rfl⟩ := List.append_of_mem member
  obtain ⟨name, named, same⟩ := Node.called_iff.mp called
  exact ⟨after, searchSiblings_called level entry named same⟩

/-- Without such an entry, the search ends behind the last node. -/
theorem Level.search_past {siblings : List Node} (level : Level siblings) {elem : CString}
    (absent : ∀ node ∈ siblings, node.isEntry → node.called elem = false) :
    searchSiblings elem siblings = .ok .past := by
  induction siblings with
  | nil => rfl
  | cons node siblings ih =>
    have later := ih level.tail fun other member => absent other (List.mem_cons_of_mem _ member)
    rw [searchSiblings_cons]
    split
    · rename_i entry
      obtain ⟨name, named, _⟩ := level.named node List.mem_cons_self entry
      have other := absent node List.mem_cons_self entry
      rw [Node.called, named] at other
      simp only [named, other, Bool.false_eq_true, if_false]
      exact later
    · exact later

theorem walk_null (names : List CString) : walk names [] = .ok [] := by
  induction names with
  | nil => rfl
  | cons elem names ih => exact ih

section Kinds

variable {kind : Node → Bool} {siblings : List Node} {elem : CString} {names : List CString}

/-- Below the entry of the first element. -/
theorem Named.cons_iff (level : Level siblings) (entries : ∀ node, kind node → node.isEntry)
    {node : Node} (member : node ∈ siblings) (entry : node.isEntry) (called : node.called elem) :
    Named kind (elem :: names) siblings ↔
      names = [] ∧ kind node ∨ node.isDir ∧ Named kind names node.GetChildren := by
  constructor
  · rintro ⟨other, memberToo, calledToo, leads⟩
    have entryToo : other.isEntry := leads.elim (fun here => entries other here.2)
      fun below => Node.isEntry_of_dir below.1
    obtain rfl := level.unique member entry called memberToo entryToo calledToo
    exact leads
  · intro leads
    exact ⟨node, member, called, leads⟩

theorem Named.not_of_absent (entries : ∀ node, kind node → node.isEntry)
    (absent : ∀ node ∈ siblings, node.isEntry → node.called elem = false) :
    ¬Named kind (elem :: names) siblings := by
  rintro ⟨node, member, called, leads⟩
  have entry : node.isEntry :=
    leads.elim (fun here => entries node here.2) fun below => Node.isEntry_of_dir below.1
  rw [absent node member entry] at called
  cases called

end Kinds

theorem Named.mono {kind other : Node → Bool} (weaker : ∀ node, kind node → other node)
    {names : List CString} {siblings : List Node} (named : Named kind names siblings) :
    Named other names siblings := by
  induction names generalizing siblings with
  | nil => exact named
  | cons elem names ih =>
    obtain ⟨node, member, called, here | below⟩ := named
    · exact ⟨node, member, called, .inl ⟨here.1, weaker node here.2⟩⟩
    · exact ⟨node, member, called, .inr ⟨below.1, ih below.2⟩⟩

theorem Node.isEntry_of_leaf (node : Node) (leaf : node.isLeaf) : node.isEntry := isEntry_of_key leaf

theorem Node.isEntry_of_fullDir (node : Node) (full : node.isFullDir) : node.isEntry :=
  isEntry_of_dir (Bool.and_eq_true_iff.mp full).1

/-- What is neither a directory nor a leaf is no entry. -/
theorem Node.isLeaf_of_entry {node : Node} (entry : node.isEntry) (noDir : node.isDir = false) :
    node.isLeaf := by
  rw [isEntry, noDir, Bool.or_false] at entry
  exact entry

theorem Node.isLeaf_of_dir {node : Node} (isDir : node.isDir) : node.isLeaf = false := by
  cases leaf : node.isLeaf
  · rfl
  · exact absurd ((isDir_of_key leaf).symm.trans isDir) Bool.false_ne_true

/-- No initial part of the names is that of a key or an array, and the names are not
those of a directory with something in it; without names, the directory where the search
begins has nothing in it. -/
structure LeadsNowhere (names : List CString) (siblings : List Node) : Prop where
  leaf : ∀ initial, initial <+: names → ¬Named Node.isLeaf initial siblings
  dir : ¬Named Node.isFullDir names siblings
  root : names = [] → siblings = []

section Search

variable {siblings : List Node} {elem : CString} {names : List CString}

theorem LeadsNowhere.nil_iff : LeadsNowhere [] siblings ↔ siblings = [] := by
  constructor
  · intro nowhere
    exact nowhere.root rfl
  · intro empty
    refine ⟨fun initial isPrefix => ?_, id, fun _ => empty⟩
    rw [List.prefix_nil.mp isPrefix]
    exact id

theorem LeadsNowhere.of_absent (absent : ∀ node ∈ siblings, node.isEntry → node.called elem = false) :
    LeadsNowhere (elem :: names) siblings := by
  refine ⟨fun initial isPrefix => ?_, Named.not_of_absent Node.isEntry_of_fullDir absent,
    fun none => absurd none (List.cons_ne_nil _ _)⟩
  rcases List.prefix_cons_iff.mp isPrefix with rfl | ⟨later, rfl, _⟩
  · exact id
  · exact Named.not_of_absent Node.isEntry_of_leaf absent

/-- The search goes on in the directory with the name of the first element. -/
theorem LeadsNowhere.dir_iff (level : Level siblings) {node : Node} (member : node ∈ siblings)
    (isDir : node.isDir) (called : node.called elem) :
    LeadsNowhere (elem :: names) siblings ↔ LeadsNowhere names node.GetChildren := by
  have entry := Node.isEntry_of_dir isDir
  have leaves (initial : List CString) : Named Node.isLeaf (elem :: initial) siblings ↔
      Named Node.isLeaf initial node.GetChildren := by
    rw [Named.cons_iff level Node.isEntry_of_leaf member entry called, Node.isLeaf_of_dir isDir]
    simp [isDir]
  have full : Named Node.isFullDir (elem :: names) siblings ↔
      names = [] ∧ node.GetChildren ≠ [] ∨ Named Node.isFullDir names node.GetChildren := by
    rw [Named.cons_iff level Node.isEntry_of_fullDir member entry called, Node.isFullDir, isDir]
    simp
  constructor
  · rintro ⟨leaf, dir, -⟩
    rw [full] at dir
    obtain ⟨here, below⟩ := not_or.mp dir
    refine ⟨fun initial isPrefix => ?_, below, fun none => ?_⟩
    · rw [← leaves]
      exact leaf (elem :: initial) (List.cons_prefix_cons.mpr ⟨rfl, isPrefix⟩)
    · by_contra some
      exact here ⟨none, some⟩
  · rintro ⟨leaf, dir, root⟩
    refine ⟨fun initial isPrefix => ?_, ?_, fun none => absurd none (List.cons_ne_nil _ _)⟩
    · rcases List.prefix_cons_iff.mp isPrefix with rfl | ⟨later, rfl, shorter⟩
      · exact id
      · rw [leaves]
        exact leaf later shorter
    · rw [full]
      rintro (⟨none, some⟩ | below)
      · exact some (root none)
      · exact dir below

/-- At a key the search has found something. -/
theorem LeadsNowhere.not_of_leaf (level : Level siblings) {node : Node} (member : node ∈ siblings)
    (isLeaf : node.isLeaf) (called : node.called elem) : ¬LeadsNowhere (elem :: names) siblings := by
  intro nowhere
  refine nowhere.leaf [elem] ?_ ?_
  · exact List.cons_prefix_cons.mpr ⟨rfl, List.nil_prefix⟩
  · rw [Named.cons_iff level Node.isEntry_of_leaf member (Node.isEntry_of_leaf node isLeaf) called]
    exact .inl ⟨rfl, isLeaf⟩

theorem walk_null_iff (dump : Dump siblings) :
    walk names siblings = .ok [] ↔ LeadsNowhere names siblings := by
  induction names generalizing siblings with
  | nil =>
    rw [walk, LeadsNowhere.nil_iff]
    exact ⟨fun same => Except.ok.inj same, fun empty => congrArg _ empty⟩
  | cons elem names ih =>
    obtain ⟨level, _, below⟩ := dump
    by_cases present : ∃ node ∈ siblings, node.isEntry ∧ node.called elem
    · obtain ⟨node, member, entry, called⟩ := present
      obtain ⟨next, search⟩ := level.search member entry called
      cases isDir : node.isDir with
      | true =>
        rw [isDir, if_pos rfl] at search
        rw [walk, search, LeadsNowhere.dir_iff level member isDir called]
        exact ih (below node member isDir)
      | false =>
        rw [isDir, if_neg Bool.false_ne_true] at search
        rw [walk, search]
        have leaf : ¬LeadsNowhere (elem :: names) siblings :=
          LeadsNowhere.not_of_leaf level member (Node.isLeaf_of_entry entry isDir) called
        exact ⟨fun null => absurd (Except.ok.inj null) (List.cons_ne_nil _ _),
          fun nowhere => absurd nowhere leaf⟩
    · have absent : ∀ node ∈ siblings, node.isEntry → node.called elem = false :=
        fun node member entry =>
        Bool.eq_false_iff.mpr fun called => present ⟨node, member, entry, called⟩
      rw [walk, level.search_past absent]
      exact ⟨fun _ => .of_absent absent, fun _ => walk_null names⟩

end Search

theorem FindPath_root (odb : Node) (path : CString) :
    FindPath (some odb) [] path = walk (pieces path) odb.GetChildren := by
  rw [← followPath_eq_walk, FindPath, List.isEmpty_nil, if_pos rfl]

/-- A path that names nothing gives the null pointer exactly when its pieces lead nowhere. When none
of its elements is too long, that is when the path has an element, and no initial part of the
elements names a key or an array. -/
theorem unnamed_null_iff {odb : Node} (dump : Dump odb.GetChildren) (path : CString)
    (unnamed : ¬Named Node.isEntry (elements path) odb.GetChildren) :
    (FindPath (some odb) [] path = .ok [] ↔ LeadsNowhere (pieces path) odb.GetChildren) ∧
      ((∀ elem ∈ elements path, elem.length ≤ kElemSize) →
        (FindPath (some odb) [] path = .ok [] ↔
          (elements path = [] → odb.GetChildren = []) ∧
            ∀ initial, initial <+: elements path → ¬Named Node.isLeaf initial odb.GetChildren)) := by
  rw [FindPath_root]
  refine ⟨walk_null_iff dump, fun short => ?_⟩
  rw [walk_null_iff dump, pieces_eq_elements path short]
  constructor
  · intro nowhere
    exact ⟨nowhere.root, nowhere.leaf⟩
  · rintro ⟨root, leaf⟩
    exact ⟨leaf, fun full => unnamed (full.mono Node.isEntry_of_fullDir), root⟩

/-- A name that is not in the directory of the array. -/
def noAmps : CString := "/Equipment/Amps".toList

theorem unnamed_null_iff_noAmps : FindPath (some oneArray) [] noAmps = .ok [] := by
  have split : elements noAmps = ["Equipment".toList, "Amps".toList] := by decide
  have unnamed : ¬Named Node.isEntry (elements noAmps) oneArray.GetChildren := by
    rw [split]
    decide
  have short : ∀ elem ∈ elements noAmps, elem.length ≤ kElemSize := by
    rw [split]
    decide
  have leaves : ∀ initial ∈ ["Equipment".toList, "Amps".toList].inits,
      ¬Named Node.isLeaf initial oneArray.GetChildren := by decide
  refine ((unnamed_null_iff oneArray_dump noAmps unnamed).2 short).mpr ⟨?_, ?_⟩
  · rw [split]
    exact fun none => absurd none (List.cons_ne_nil _ _)
  · rw [split]
    exact fun initial isPrefix => leaves initial ((List.mem_inits _ _).mpr isPrefix)

/-- A path that goes on below the array. -/
def belowVolts : CString := "/Equipment/Volts/more".toList

/-- It names nothing, and gives the array. -/
theorem belowVolts_found :
    ¬Named Node.isEntry (elements belowVolts) oneArray.GetChildren ∧
      FindPath (some oneArray) [] belowVolts = .ok [volts, text 9] := by
  have split : elements belowVolts = ["Equipment".toList, "Volts".toList, "more".toList] := by decide
  have short : ∀ elem ∈ elements belowVolts, elem.length ≤ kElemSize := by
    rw [split]
    decide
  refine ⟨?_, ?_⟩
  · rw [split]
    decide
  · rw [FindPath_root, pieces_eq_elements belowVolts short, split]
    rfl

end PtfConverter.XmlOdb
