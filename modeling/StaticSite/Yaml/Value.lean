import StaticSite.Decimal.Notation
/-!
YAML values. A mapping keeps its entries in the order of their keys' first appearance.
-/
namespace StaticSite.Yaml

open Decimal (Double)

inductive Value where
  | null
  | bool (b : Bool)
  | int (n : Int)
  | float (x : Double)
  | string (s : String)
  | sequence (items : List Value)
  | mapping (entries : List (Value × Value))
  deriving Repr, Inhabited

namespace Value

mutual

-- Whether two values are the same key. The order of a mapping's entries does not matter, and
-- numbers are compared as numbers.
def sameKey : Value → Value → Bool
  | null, null => true
  | bool a, bool b => a == b
  | int a, int b => a == b
  | float a, float b => a.sameNumber b
  | string a, string b => a == b
  | sequence a, sequence b => sameItems a b
  | mapping a, mapping b => a.length == b.length && sameEntries a b
  | _, _ => false

def sameItems : List Value → List Value → Bool
  | [], [] => true
  | a :: as, b :: bs => sameKey a b && sameItems as bs
  | _, _ => false

-- Whether each entry of the first mapping is one of the second.
def sameEntries : List (Value × Value) → List (Value × Value) → Bool
  | [], _ => true
  | (key, value) :: rest, b =>
    b.any (fun e => sameKey key e.1 && sameKey value e.2) && sameEntries rest b

end

-- Puts an entry into a mapping. A key that is there keeps its place and takes the new value.
def insertEntry (key value : Value) : List (Value × Value) → List (Value × Value)
  | [] => [(key, value)]
  | (k, v) :: rest =>
    if sameKey k key then (k, value) :: rest else (k, v) :: insertEntry key value rest

-- The mapping that a list of entries gives, one put in after the other.
def ofEntries (entries : List (Value × Value)) : Value :=
  mapping (entries.foldl (fun m e => insertEntry e.1 e.2 m) [])

theorem insertEntry_ne_nil (key value : Value) (m : List (Value × Value)) :
    insertEntry key value m ≠ [] := by
  cases m with
  | nil => simp [insertEntry]
  | cons e _ => unfold insertEntry; split <;> simp

end Value

end StaticSite.Yaml
