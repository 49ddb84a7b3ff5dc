import Mathlib.Data.List.Basic
import Mathlib.Data.BitVec

/-! # Looking up keys in an XML dump of the ODB

The dump is a tree of XML nodes: directories, keys and arrays of keys, with their names in an
attribute, and text between them. `FindPath` takes a path apart at its slashes and goes through the
children of one directory after the other. A pointer to a node is the list of the node and its next
siblings, which is all that it leads to; the null pointer is the empty list.
-/

namespace PtfConverter.XmlOdb

/-- The characters of a C string before its terminator. -/
abbrev CString := List Char

/-- `strcasecmp` finds no difference, in the C locale. -/
def sameCase (s t : CString) : Bool := s.map Char.toLower == t.map Char.toLower

def isspace (c : Char) : Bool := c = ' ' || ('\t' ≤ c && c ≤ '\r')

/-- The value of the leading digits. -/
def digits (value : ℕ) : CString → ℕ
  | [] => value
  | c :: rest => if c.isDigit then digits (value * 10 + (c.toNat - '0'.toNat)) rest else value

/-- `atoi`: a sign and digits behind white space, as a saturating 64-bit integer cut to 32 bits. -/
def atoi (s : CString) : ℤ :=
  let value : ℤ := match s.dropWhile isspace with
    | '-' :: rest => -digits 0 rest
    | '+' :: rest => digits 0 rest
    | rest => digits 0 rest
  (BitVec.ofInt 32 (max (-2 ^ 63) (min value (2 ^ 63 - 1)))).toInt

/-- An XML node: where its object is, its name, its attributes and its children. -/
inductive Node where
  | mk (address : ℕ) (name : CString) (attributes : List (CString × CString)) (children : List Node)

namespace Node

def GetNodeName : Node → CString
  | mk _ name _ _ => name

def GetAttributes : Node → List (CString × CString)
  | mk _ _ attributes _ => attributes

def GetChildren : Node → List Node
  | mk _ _ _ children => children

/-- The value of the first attribute with a name. -/
def GetAttrValue (node : Node) (attrName : CString) : Option CString :=
  node.GetAttributes.lookup attrName

def isDir (node : Node) : Bool := node.GetNodeName == "dir".toList

def isKey (node : Node) : Bool := node.GetNodeName == "key".toList

def isKeyArray (node : Node) : Bool := node.GetNodeName == "keyarray".toList

def isValue (node : Node) : Bool := node.GetNodeName == "value".toList

end Node

/-- The comparison of a path element with a name attribute that is not there. -/
inductive Fault where
  | nullName
deriving DecidableEq, Repr

/-- How the search for a path element among siblings ends: behind the last of them, in the children
of a directory, or at a key. -/
inductive Search where
  | past
  | descend (children : List Node)
  | found (node : List Node)

/-- The loop over the siblings from a node on. -/
def searchSiblings (elem : CString) : List Node → Except Fault Search
  | [] => .ok .past
  | node :: next =>
      if !node.isKey && !node.isDir && !node.isKeyArray then searchSiblings elem next
      else match node.GetAttrValue "name".toList with
        | none => .error .nullName
        | some namevalue =>
            if sameCase elem namevalue then
              if node.isDir then .ok (.descend node.GetChildren) else .ok (.found (node :: next))
            else searchSiblings elem next

def kElemSize : ℕ := 256

/-- A path without its leading slashes. -/
def skipSlashes (path : CString) : CString := path.dropWhile (· == '/')

/-- The next element of a path, as much of it as the buffer holds. -/
def nextElem (path : CString) : CString := (path.take kElemSize).takeWhile (· != '/')

theorem head_skipSlashes {path rest : CString} {c : Char} (split : skipSlashes path = c :: rest) :
    (c == '/') = false := by
  have first := List.head?_dropWhile_not (· == '/') path
  rw [skipSlashes] at split
  rw [split] at first
  exact first

/-- The path behind an element is shorter. -/
theorem drop_nextElem_lt {path : CString} (more : skipSlashes path ≠ []) :
    ((skipSlashes path).drop (nextElem (skipSlashes path)).length).length < path.length := by
  have shorter : (skipSlashes path).length ≤ path.length := (List.dropWhile_suffix _).length_le
  cases split : skipSlashes path with
  | nil => exact absurd split more
  | cons c rest =>
    have some : 0 < (nextElem (c :: rest)).length := by
      rw [nextElem, kElemSize, List.take_succ_cons, List.takeWhile_cons, bne, head_skipSlashes split]
      exact Nat.succ_pos _
    rw [split, List.length_cons] at shorter
    rw [List.length_drop, List.length_cons]
    omega

/-- The loop over the elements of a path; a search that ends behind the last sibling goes on
from the null pointer. -/
def followPath (node : List Node) (path : CString) : Except Fault (List Node) :=
  if _ended : skipSlashes path = [] then .ok node
  else
    let elem := nextElem (skipSlashes path)
    match searchSiblings elem node with
    | .error fault => .error fault
    | .ok .past => followPath [] ((skipSlashes path).drop elem.length)
    | .ok (.descend children) => followPath children ((skipSlashes path).drop elem.length)
    | .ok (.found node) => .ok node
termination_by path.length
decreasing_by all_goals exact drop_nextElem_lt _ended

/-- `FindPath`, in a dump whose `odb` node was found or was not. -/
def FindPath (fOdb : Option Node) (node : List Node) (path : CString) : Except Fault (List Node) :=
  match fOdb with
  | none => .ok []
  | some odb => followPath (if node.isEmpty then odb.GetChildren else node) path

/-- The loop over the children of an array: the value with a number, or the array if
there are not so many. -/
def searchValues (array : List Node) (index : ℤ) : ℤ → List Node → List Node
  | _, [] => array
  | i, elem :: next =>
      if elem.isValue then
        if i = index then elem :: next else searchValues array index (i + 1) next
      else searchValues array index i next

def FindArrayPath (fOdb : Option Node) (node : List Node) (path type : CString) (index : ℤ) :
    Except Fault (List Node) :=
  match fOdb with
  | none => .ok []
  | some odb => do
      let found ← FindPath fOdb (if node.isEmpty then odb.GetChildren else node) path
      match found with
      | [] => return []
      | node :: next =>
          let typed : Bool := match node.GetAttrValue "type".toList with
            | none => false
            | some typevalue => sameCase typevalue type
          if !typed then return []
          else match node.isKeyArray, node.GetAttrValue "num_values".toList with
            | true, some num_values =>
                let max_index := atoi num_values
                if index < 0 ∨ max_index ≤ index then return []
                else return searchValues (node :: next) index 0 node.GetChildren
            | _, _ => if index ≠ 0 then return [] else return node :: next

end PtfConverter.XmlOdb
