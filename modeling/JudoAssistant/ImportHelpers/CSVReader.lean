import Mathlib.Data.List.MinMax
import Mathlib.Data.Nat.Notation
import JudoAssistant.Lib.Effect

/-!
# Reading a table from a CSV file

`CSVReader` (`src/ui/import_helpers/csv_reader.cpp`) keeps the lines of a file and splits them at a
delimiter, which may be changed.  The rows may have different numbers of fields; the number of columns is
the greatest one, and a field that a row does not have is empty.
-/

namespace JudoAssistant

open Effect

/-- `QChar`, a code unit of 16 bits. -/
abbrev QChar : Type := UInt16

/-- `QString` -/
abbrev QString : Type := List QChar

/-- A character of the ASCII table. -/
def QChar.ascii (c : Char) : QChar := UInt16.ofNat c.toNat

/-- A text of the ASCII table. -/
def QString.ascii (s : String) : QString := s.toList.map QChar.ascii

/-- What Qt does with texts. -/
structure QtText where
  trimmed : QString → QString
  toLower : QString → QString
  toStdString : QString → String

/-- The assertions of `CSVReader::get`. -/
inductive CSVAssertion where
  | row
  | column
  deriving DecidableEq, Repr

/-- `CSVReader` -/
structure CSVReader where
  columnCount : ℕ
  lines : List QString
  fields : List (List QString)
  delimiter : QChar
  isOpen : Bool

namespace CSVReader

variable (qt : QtText)

/-- `listDelimiters` -/
def listDelimiters : List QChar := [.ascii ',', .ascii ';', .ascii '\t']

/-- `guessDelimiter`: the delimiter that occurs most often, the last one of those that do. -/
def guessDelimiter (line : QString) : QChar :=
  (listDelimiters.foldl (fun (del, delCount) a =>
    let count := line.count a
    if delCount ≤ count then (a, count) else (del, delCount)) (QChar.ascii ',', 0)).1

/-- The variables of the loop over a line: the fields, the current field and whether it is inside of quotes. -/
structure LineState where
  fields : List QString := []
  curField : QString := []
  inQuotes : Bool := false

/-- One character of a line. -/
def parseChar (delimiter : QChar) (s : LineState) (c : QChar) : LineState :=
  if c = .ascii '"' ∧ delimiter ≠ .ascii '"' then { s with inQuotes := !s.inQuotes }
  else if c = delimiter ∧ ¬s.inQuotes then { s with fields := s.fields ++ [qt.trimmed s.curField], curField := [] }
  else { s with curField := s.curField ++ [c] }

def parseLine (delimiter : QChar) (line : QString) : List QString :=
  let s := line.foldl (parseChar qt delimiter) {}
  s.fields ++ [qt.trimmed s.curField]

/-- The greatest number of fields. -/
def width (fields : List (List QString)) : ℕ := fields.foldl (fun n row => max n row.length) 0

def parse (r : CSVReader) : CSVReader :=
  let fields := r.lines.map (parseLine qt r.delimiter)
  { r with fields := fields, columnCount := width fields }

/-- The constructor for the lines of a file, or for a file that cannot be opened, where the number of columns is not
initialised. -/
def init (garbage : ℕ) : Option (List QString) → CSVReader
  | none => { columnCount := garbage, lines := [], fields := [], delimiter := 0, isOpen := false }
  | some lines =>
    let delimiter := match lines with
      | [] => QChar.ascii ','
      | line :: _ => guessDelimiter line
    parse qt { columnCount := 0, lines := lines, fields := [], delimiter := delimiter, isOpen := true }

def setDelimiter (r : CSVReader) (del : QChar) : CSVReader := parse qt { r with delimiter := del }

def rowCount (r : CSVReader) : ℕ := r.fields.length

def get (r : CSVReader) (row column : ℕ) : Except CSVAssertion QString :=
  if row < r.rowCount then
    if column < r.columnCount then .ok ((r.fields.getD row []).getD column [])
    else .error .column
  else .error .row

variable {qt}

theorem get_ok {r : CSVReader} {row column : ℕ} :
    (∃ cell, r.get row column = .ok cell) ↔ row < r.rowCount ∧ column < r.columnCount := by
  unfold get
  split_ifs with hrow hcolumn
  · exact ⟨fun _ => ⟨hrow, hcolumn⟩, fun _ => ⟨_, rfl⟩⟩
  · exact ⟨fun ⟨_, h⟩ => (nomatch h), fun h => absurd h.2 hcolumn⟩
  · exact ⟨fun ⟨_, h⟩ => (nomatch h), fun h => absurd h.1 hrow⟩

/-- The rows are the lines of the file. -/
structure Parsed (qt : QtText) (r : CSVReader) : Prop where
  fields : r.fields = r.lines.map (parseLine qt r.delimiter)
  columnCount : r.isOpen = true → r.columnCount = width r.fields

theorem parsed_parse (r : CSVReader) : (parse qt r).Parsed qt := ⟨rfl, fun _ => rfl⟩

theorem parsed_setDelimiter (r : CSVReader) (del : QChar) : (r.setDelimiter qt del).Parsed qt := parsed_parse _

theorem parsed_init (garbage : ℕ) (file : Option (List QString)) : (init qt garbage file).Parsed qt := by
  cases file with
  | none => exact ⟨rfl, fun h => nomatch h⟩
  | some lines => exact parsed_parse _

theorem Parsed.rowCount_eq {r : CSVReader} (h : r.Parsed qt) : r.rowCount = r.lines.length := by
  rw [rowCount, h.fields, List.length_map]

end CSVReader

end JudoAssistant
