import FileTags.Decimal.Numeral
import FileTags.Decimal.Shortest
import FileTags.Entries
import FileTags.Moment
import FileTags.Text.Quoted
/-! # Values

Data that comes from outside (a tag file, a configuration, an editor) need not be of the expected
kind, so it is a value first: nothing, a truth value, a number, a text, a moment, a list or a
table.  This module says when two values are the same, which of them count as empty, how they are
ordered, and how messages show them.
-/
namespace FileTags

open Decimal (Binary64)

/-- Data of any kind. -/
inductive Value where
  | null
  | bool (b : Bool)
  | int (n : Int)
  | float (x : Binary64)
  | text (s : String)
  | moment (m : Moment)
  | list (items : List Value)
  | table (entries : List (String × Value))
  deriving Repr

instance : Inhabited Value := ⟨.null⟩

namespace Value

/-- The text, if the value is one. -/
def text? : Value → Option String
  | .text s => some s
  | _ => none

/-- Whether a value is a text. -/
def isText (v : Value) : Bool := v.text?.isSome

/-- Nothing, zero, and everything without members count as empty. -/
def isEmpty : Value → Bool
  | .null => true
  | .bool b => !b
  | .int n => n == 0
  | .float x => x.isZero
  | .text s => s.isEmpty
  | .moment _ => false
  | .list items => items.isEmpty
  | .table entries => entries.isEmpty

/-- A number as messages sort it: whole, or floating. -/
inductive Quantity where
  | whole (n : Int)
  | floating (x : Binary64)

/-- The number that a value is; truth counts as one and falsehood as zero. -/
def quantity? : Value → Option Quantity
  | .bool b => some (.whole (if b then 1 else 0))
  | .int n => some (.whole n)
  | .float x => some (.floating x)
  | _ => none

/-- The exact order of two numbers; nothing if one of them is no number. -/
def Quantity.compare? : Quantity → Quantity → Option Ordering
  | .whole n, .whole m => some (compare n m)
  | .floating x, .whole n => x.compareInt? n
  | .whole n, .floating x => (x.compareInt? n).map Ordering.swap
  | .floating x, .floating y => Decimal.Binary64.compare? x y

/-- Whether two values that hold no others are the same.  Numbers are the same if they are equal,
of whatever kind they are. -/
def sameScalar (v w : Value) : Bool :=
  match v, w with
  | .null, .null => true
  | .text s, .text t => s == t
  | .moment m, .moment n => m == n
  | v, w =>
    match v.quantity?, w.quantity? with
    | some a, some b => a.compare? b == some .eq
    | _, _ => false

mutual

/-- Whether two values are the same: lists item by item, tables key by key in any order. -/
def same : Value → Value → Bool
  | .list items, .list items' => sameItems items items'
  | .table entries, .table entries' =>
    entries.length == entries'.length && sameEntries entries entries'
  | v, w => sameScalar v w

/-- Whether two lists are the same item by item. -/
def sameItems : List Value → List Value → Bool
  | [], [] => true
  | v :: vs, w :: ws => same v w && sameItems vs ws
  | _, _ => false

/-- Whether each entry has a partner of the same value among the others. -/
def sameEntries : List (String × Value) → List (String × Value) → Bool
  | [], _ => true
  | (k, v) :: rest, others =>
    (match Entries.find? others k with
      | some w => same v w
      | none => false) && sameEntries rest others

end

/-- Whether a value can be a member of a set: lists and tables cannot. -/
def isAtomic : Value → Bool
  | .list _ => false
  | .table _ => false
  | _ => true

/-- The order of two values; nothing if they are of kinds that have none in common. -/
def compare? (v w : Value) : Option Ordering :=
  match v, w with
  | .text s, .text t => some (compare s t)
  | v, w =>
    match v.quantity?, w.quantity? with
    | some a, some b => some ((a.compare? b).getD .gt)
    | _, _ => none

/-- The values in increasing order; nothing if some two of them have no order. -/
def sort? (vs : List Value) : Option (List Value) :=
  if vs.length ≤ 1 then some vs
  else if vs.all isText || vs.all (fun v => v.quantity?.isSome) then
    some (vs.mergeSort fun v w => (compare? v w) != some .gt)
  else none

mutual

/-- A value as messages show it. -/
def shown : Value → String
  | .null => "None"
  | .bool b => if b then "True" else "False"
  | .int n => toString n
  | .float x => x.toText
  | .text s => Text.quoted s
  | .moment m => m.shown
  | .list items => "[" ++ String.intercalate ", " (shownItems items) ++ "]"
  | .table entries => "\x7b" ++ String.intercalate ", " (shownEntries entries) ++ "\x7d"

/-- The items of a list, each as messages show it. -/
def shownItems : List Value → List String
  | [] => []
  | v :: vs => shown v :: shownItems vs

/-- The entries of a table, each as messages show it. -/
def shownEntries : List (String × Value) → List String
  | [] => []
  | (k, v) :: rest => (Text.quoted k ++ ": " ++ shown v) :: shownEntries rest

end

mutual

/-- Whether a value can be shown: no whole number in it has more digits than numbers may have. -/
def isShowable : Value → Bool
  | .int n => n.natAbs < Nat.pow 10 Decimal.maxDigits
  | .list items => areShowable items
  | .table entries => entriesAreShowable entries
  | _ => true

/-- Whether all items of a list can be shown. -/
def areShowable : List Value → Bool
  | [] => true
  | v :: vs => isShowable v && areShowable vs

/-- Whether all values of a table can be shown. -/
def entriesAreShowable : List (String × Value) → Bool
  | [] => true
  | (_, v) :: rest => isShowable v && entriesAreShowable rest

end

theorem areShowable_eq_all (vs : List Value) : areShowable vs = vs.all isShowable := by
  induction vs with
  | nil => rfl
  | cons v vs ih => rw [areShowable, ih, List.all_cons]

theorem entriesAreShowable_eq_all (es : List (String × Value)) :
    entriesAreShowable es = es.all fun e => e.2.isShowable := by
  induction es with
  | nil => rfl
  | cons e es ih => rw [entriesAreShowable, ih, List.all_cons]

theorem areShowable_iff {vs : List Value} :
    areShowable vs = true ↔ ∀ v ∈ vs, v.isShowable = true := by
  rw [areShowable_eq_all, List.all_eq_true]

theorem entriesAreShowable_iff {es : List (String × Value)} :
    entriesAreShowable es = true ↔ ∀ e ∈ es, e.2.isShowable = true := by
  rw [entriesAreShowable_eq_all, List.all_eq_true]

/-- A value as a text: a text is itself, a moment has its plain text, all else is as shown. -/
def toText : Value → String
  | .text s => s
  | .moment m => m.toText
  | v => v.shown

/-- The texts among a list of values, if all are texts. -/
def texts? (vs : List Value) : Option (List String) := vs.mapM text?

end Value

end FileTags
