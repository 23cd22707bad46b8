/-
Module: Correlate.Facts.Relation
Purpose: What a points-to analysis found out about variables of compiled code.
Main exports: Relation, Facts, Facts.addText, LocalCopy
-/
import Std.Data.TreeMap
import Correlate.Text.Segment

namespace Correlate

/-!
Each relation is a text with one row a line and tabs between the columns.  Rows with too few columns
and empty lines say nothing.
-/

/-- The relations that are read. -/
inductive Relation where
  | specialCall
  | superCall
  | virtualCall
  | allocation
  | returnValue
  | localCopy
deriving DecidableEq, Repr, Inhabited

namespace Relation

/-- All relations, in the order in which they are read. -/
def all : List Relation :=
  [.specialCall, .superCall, .virtualCall, .allocation, .returnValue, .localCopy]

/-- The name of the file of a relation. -/
def fileName : Relation → String
  | .specialCall => "SpecialMethodInvocation.facts"
  | .superCall => "SuperMethodInvocation.facts"
  | .virtualCall => "VirtualMethodInvocation.facts"
  | .allocation => "AssignHeapAllocation.facts"
  | .returnValue => "AssignReturnValue.facts"
  | .localCopy => "AssignLocal.facts"

end Relation

/-- An assignment of one variable of a method to another one. -/
structure LocalCopy where
  source : String
  target : String
deriving DecidableEq, Repr, Inhabited

/-- The variables of compiled code that sites and methods are related to, by the id of the site or
method. -/
structure Facts where
  /-- The variable a call is made on. -/
  bases : Std.TreeMap String String := {}
  /-- The variable a created object is assigned to. -/
  created : Std.TreeMap String String := {}
  /-- The variable a returned value is assigned to. -/
  returned : Std.TreeMap String String := {}
  /-- The copies between the variables of a method. -/
  copies : Std.TreeMap String (List LocalCopy) := {}

namespace Facts

instance : Inhabited Facts := ⟨{}⟩

def baseOf? (facts : Facts) (call : String) : Option String :=
  facts.bases[call]?

def createdAt? (facts : Facts) (allocation : String) : Option String :=
  facts.created[allocation]?

def returnedBy? (facts : Facts) (call : String) : Option String :=
  facts.returned[call]?

/-- The copies between the variables of a method, in the order of the rows. -/
def copiesIn (facts : Facts) (method : String) : List LocalCopy :=
  facts.copies.getD method []

/-- The number of facts. -/
def size (facts : Facts) : Nat :=
  facts.bases.size + facts.created.size + facts.returned.size +
    (facts.copies.toList.flatMap Prod.snd).length

def isEmpty (facts : Facts) : Bool :=
  facts.size = 0

/-- Add a row of a relation.  Of several rows about one site the last one holds, and the copies of a
method are collected. -/
def addRow (relation : Relation) (facts : Facts) (row : List String) : Facts :=
  match relation with
  | .specialCall | .superCall | .virtualCall =>
      match row with
      | call :: _ :: _ :: base :: _ :: _ => { facts with bases := facts.bases.insert call base }
      | _ => facts
  | .allocation =>
      match row with
      | _ :: _ :: site :: slot :: _ :: _ :: _ =>
          { facts with created := facts.created.insert site slot }
      | _ => facts
  | .returnValue =>
      match row with
      | call :: slot :: _ => { facts with returned := facts.returned.insert call slot }
      | _ => facts
  | .localCopy =>
      match row with
      | _ :: _ :: source :: target :: method :: _ =>
          { facts with
            copies := facts.copies.insert method (facts.copiesIn method ++ [{ source, target }]) }
      | _ => facts

/-- The rows of a text. -/
def rows (text : String) : List (List String) :=
  ((Text.lines text.toList).filter fun line => !line.isEmpty).map fun line =>
    (Text.segments '\t' line).map .ofList

/-- Add the rows of a text. -/
def addText (relation : Relation) (facts : Facts) (text : String) : Facts :=
  (rows text).foldl (addRow relation) facts

end Facts

end Correlate
