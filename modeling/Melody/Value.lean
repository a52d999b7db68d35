import Melody.Number.Text
import Melody.Text.Quoted

/-!
# Values

What a variable can hold while a program runs: nothing, a truth value, a number of either
kind, a text, a list, or a record whose fields keep their order. `written` is the form a value
takes in messages; inside lists and records texts are quoted.
-/

set_option autoImplicit false

namespace Melody

inductive Value where
  | none
  | bool (b : Bool)
  | int (n : Int)
  | float (x : Float)
  | text (s : String)
  | list (items : List Value)
  | record (fields : List (String × Value))
deriving Inhabited

namespace Value

def kind : Value → String
  | .none => "NoneType"
  | .bool _ => "bool"
  | .int _ => "int"
  | .float _ => "float"
  | .text _ => "str"
  | .list _ => "list"
  | .record _ => "dict"

def isTrue : Value → Bool
  | .none => false
  | .bool b => b
  | .int n => n != 0
  | .float x => x != 0.0
  | .text s => s != ""
  | .list items => !items.isEmpty
  | .record fields => !fields.isEmpty

mutual
def quoted : Value → String
  | .none => "None"
  | .bool b => if b then "True" else "False"
  | .int n => toString n
  | .float x => Number.writeFloat x
  | .text s => Text.quote s
  | .list items => "[" ++ String.intercalate ", " (quotedItems items) ++ "]"
  | .record fields => "\x7b" ++ String.intercalate ", " (quotedFields fields) ++ "\x7d"

def quotedItems : List Value → List String
  | [] => []
  | v :: vs => quoted v :: quotedItems vs

def quotedFields : List (String × Value) → List String
  | [] => []
  | field :: rest => quotedField field :: quotedFields rest

def quotedField : String × Value → String
  | (key, v) => Text.quote key ++ ": " ++ quoted v
end

def written : Value → String
  | .text s => s
  | v => v.quoted

def asInt? : Value → Option Int
  | .bool b => some (if b then 1 else 0)
  | .int n => some n
  | _ => Option.none

mutual
def same : Value → Value → Bool
  | .none, .none => true
  | .text a, .text b => a == b
  | .list as, .list bs => sameItems as bs
  | .record as, .record bs => as.length == bs.length && sameFields as bs
  | .float x, .float y => x == y
  | .float x, .int n => Number.equalsInt x n
  | .float x, .bool b => Number.equalsInt x (if b then 1 else 0)
  | .int n, w =>
    match w with
    | .float y => Number.equalsInt y n
    | w => w.asInt? == some n
  | .bool b, w =>
    match w with
    | .float y => Number.equalsInt y (if b then 1 else 0)
    | w => w.asInt? == some (if b then 1 else 0)
  | _, _ => false

def sameItems : List Value → List Value → Bool
  | [], [] => true
  | a :: as, b :: bs => same a b && sameItems as bs
  | _, _ => false

def sameFields : List (String × Value) → List (String × Value) → Bool
  | [], _ => true
  | field :: rest, bs => sameField field bs && sameFields rest bs

def sameField : String × Value → List (String × Value) → Bool
  | (key, a), bs =>
    match bs.lookup key with
    | some b => same a b
    | Option.none => false
end

end Value

abbrev Table (α : Type) := List (String × α)

namespace Table

variable {α : Type}

def find? (t : Table α) (name : String) : Option α :=
  List.lookup name t

def has (t : Table α) (name : String) : Bool :=
  (t.find? name).isSome

def bind : Table α → String → α → Table α
  | [], name, a => [(name, a)]
  | (key, b) :: rest, name, a =>
    if key = name then (key, a) :: rest else (key, b) :: bind rest name a

def bindAll (t : Table α) (entries : List (String × α)) : Table α :=
  entries.foldl (fun t e => t.bind e.1 e.2) t

end Table

end Melody
