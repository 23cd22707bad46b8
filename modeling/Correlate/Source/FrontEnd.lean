/-
Module: Correlate.Source.FrontEnd
Purpose: Choosing how to read a source file by its name.
Main exports: FrontEnd, FrontEnd.model, FrontEnd.shipped, FrontEnd.select?
-/
import Correlate.Source.Lowering

namespace Correlate.Source

/-- A way to read source files. -/
structure FrontEnd where
  name : String
  /-- The endings of the file names it accepts, in small letters. -/
  endings : List String
  /-- The file that a text describes, under the path it is reported with. -/
  read : String → String → Except ReadError File

namespace FrontEnd

/-- Reads documents that describe source files. -/
def model : FrontEnd :=
  { name := "model", endings := [".src.json"], read := File.ofText }

/-- The front ends there are. -/
def shipped : List FrontEnd := [model]

/-- A front end accepts a file whose name ends in one of its endings, in capital or small letters. -/
def accepts (frontEnd : FrontEnd) (fileName : String) : Bool :=
  let lower := fileName.toList.map Char.toLower
  frontEnd.endings.any fun ending => ending.toList.isSuffixOf lower

/-- The first front end that accepts a file. -/
def select? (frontEnds : List FrontEnd) (fileName : String) : Option FrontEnd :=
  frontEnds.find? (·.accepts fileName)

/-- Some front end accepts the file. -/
def supports (frontEnds : List FrontEnd) (fileName : String) : Bool :=
  (select? frontEnds fileName).isSome

end FrontEnd

end Correlate.Source
