import JudoAssistant.ImportHelpers.CSVReader
import JudoAssistant.Lib.Run
import JudoAssistant.Tournament.Stores

/-!
# Importing players from a table

`PlayerTableImporter` (`src/ui/import_helpers/player_table_importer.cpp`) keeps for each field of a player
the index of a column.  The columns are guessed from the header row until one of them is set by hand; from
then on they stay as they are, also when a new delimiter splits the file into fewer columns.
-/

namespace JudoAssistant

open Effect Runs

/-- The columns that the importer looks for, in the order of `guessColumns`. -/
inductive ImportColumn where
  | firstName
  | lastName
  | age
  | rank
  | club
  | weight
  | country
  | sex
  | category
  deriving DecidableEq, Repr

/-- `fromHumanString` of the fields that are parsed, or none where it throws. -/
structure HumanStrings where
  age : QString → Option ℤ
  rank : QString → Option PlayerRank
  weight : QString → Option ℚ
  country : QString → Option PlayerCountry
  sex : QString → Option PlayerSex

/-- `PlayerTableImporter` -/
structure PlayerTableImporter where
  reader : CSVReader
  hasHeaderRow : Bool
  columnsManuallySet : Bool
  columns : ImportColumn → Option ℕ

namespace PlayerTableImporter

variable (qt : QtText) (human : HumanStrings)

/-- `HEADER_MATCH_ACTION` -/
def headerMatchAction : ℕ := 2

/-! ### The header row -/

/-- The cell is one of the titles, in lower case. -/
def isTitle (titles : List String) (cell : QString) : Bool := (titles.map QString.ascii).contains (qt.toLower cell)

def isFirstNameHeader : QString → Bool := isTitle qt ["first name", "firstname"]

def isLastNameHeader : QString → Bool := isTitle qt ["last name", "lastname"]

def isAgeHeader : QString → Bool := isTitle qt ["age"]

def isRankHeader : QString → Bool := isTitle qt ["rank", "belt"]

def isClubHeader : QString → Bool := isTitle qt ["club"]

def isWeightHeader : QString → Bool := isTitle qt ["weight"]

def isCountryHeader : QString → Bool := isTitle qt ["country", "nation"]

def isSexHeader : QString → Bool := isTitle qt ["sex", "gender"]

def isCategoryHeader : QString → Bool := isTitle qt ["category"]

/-- The title of each column, in the order in which `guessColumns` tries them. -/
def headers : List (ImportColumn × (QString → Bool)) :=
  [(.firstName, isFirstNameHeader qt), (.lastName, isLastNameHeader qt), (.age, isAgeHeader qt),
    (.rank, isRankHeader qt), (.club, isClubHeader qt), (.weight, isWeightHeader qt),
    (.country, isCountryHeader qt), (.sex, isSexHeader qt), (.category, isCategoryHeader qt)]

def guessHasHeaderRow (p : PlayerTableImporter) : Except CSVAssertion PlayerTableImporter :=
  if p.reader.rowCount = 0 ∨ p.reader.columnCount = 0 then .ok { p with hasHeaderRow := false }
  else do
    let cells ← (List.range p.reader.columnCount).mapM fun column => p.reader.get 0 column
    let cellMatches := cells.countP fun cell => isFirstNameHeader qt cell || isLastNameHeader qt cell ||
      isSexHeader qt cell || isAgeHeader qt cell || isWeightHeader qt cell || isCountryHeader qt cell ||
      isClubHeader qt cell
    return { p with hasHeaderRow := decide (headerMatchAction ≤ cellMatches) }

/-- One cell of the header row: the first column that has not been found yet and whose title it is. -/
def guessColumn (columns : ImportColumn → Option ℕ) (column : ℕ) (cell : QString) : ImportColumn → Option ℕ :=
  match (headers qt).find? fun header => (columns header.1).isNone && header.2 cell with
  | none => columns
  | some header => Function.update columns header.1 (some column)

def guessColumns (p : PlayerTableImporter) : Except CSVAssertion PlayerTableImporter :=
  if p.hasHeaderRow = false ∨ p.reader.columnCount = 0 ∨ p.reader.rowCount = 0 then
    .ok { p with columns := fun _ => none }
  else do
    let columns ← (List.range p.reader.columnCount).foldlM (fun columns column => do
      let cell ← p.reader.get 0 column
      return guessColumn qt columns column cell) fun _ => none
    return { p with columns := columns }

/-- The constructor.  The header flag is not initialised for a file that is not open. -/
def init (garbage : Bool) (reader : CSVReader) : Except CSVAssertion PlayerTableImporter :=
  let p : PlayerTableImporter :=
    { reader := reader, hasHeaderRow := garbage, columnsManuallySet := false, columns := fun _ => none }
  if reader.isOpen = false then .ok p
  else do
    let p ← p.guessHasHeaderRow qt
    p.guessColumns qt

def setHasHeaderRow (p : PlayerTableImporter) (val : Bool) : Except CSVAssertion PlayerTableImporter :=
  if p.hasHeaderRow = val then .ok p
  else
    let p := { p with hasHeaderRow := val }
    if p.columnsManuallySet then .ok p else p.guessColumns qt

def setDelimiter (p : PlayerTableImporter) (del : QChar) : Except CSVAssertion PlayerTableImporter :=
  let p := { p with reader := p.reader.setDelimiter qt del }
  if p.columnsManuallySet then .ok p
  else do
    let p ← p.guessHasHeaderRow qt
    p.guessColumns qt

/-- The setters of the columns. -/
def setColumn (column : ImportColumn) (p : PlayerTableImporter) (val : Option ℕ) : PlayerTableImporter :=
  { p with columns := Function.update p.columns column val, columnsManuallySet := true }

def setFirstNameColumn : PlayerTableImporter → Option ℕ → PlayerTableImporter := setColumn .firstName

def setLastNameColumn : PlayerTableImporter → Option ℕ → PlayerTableImporter := setColumn .lastName

def setAgeColumn : PlayerTableImporter → Option ℕ → PlayerTableImporter := setColumn .age

def setRankColumn : PlayerTableImporter → Option ℕ → PlayerTableImporter := setColumn .rank

def setClubColumn : PlayerTableImporter → Option ℕ → PlayerTableImporter := setColumn .club

def setWeightColumn : PlayerTableImporter → Option ℕ → PlayerTableImporter := setColumn .weight

def setCountryColumn : PlayerTableImporter → Option ℕ → PlayerTableImporter := setColumn .country

def setSexColumn : PlayerTableImporter → Option ℕ → PlayerTableImporter := setColumn .sex

def setCategoryColumn : PlayerTableImporter → Option ℕ → PlayerTableImporter := setColumn .category

/-! ### The import -/

/-- The cell of a column of a row, if the column is set. -/
def cell (p : PlayerTableImporter) (row : ℕ) (column : ImportColumn) : Except CSVAssertion (Option QString) :=
  match p.columns column with
  | none => .ok none
  | some n => do
    let str ← p.reader.get row n
    return some str

/-- The text of a column, which is empty if the column is not set. -/
def text (p : PlayerTableImporter) (row : ℕ) (column : ImportColumn) : Except CSVAssertion String := do
  let str ← p.cell row column
  return (str.map qt.toStdString).getD ""

/-- `parseValue` -/
def parseValue {α : Type} (fromHumanString : QString → Option α) (p : PlayerTableImporter) (row : ℕ)
    (column : ImportColumn) : Except CSVAssertion (Option α) := do
  let str ← p.cell row column
  return str.bind fromHumanString

/-- The player and the name of the category in a row. -/
def importRow (p : PlayerTableImporter) (row : ℕ) : Except CSVAssertion (PlayerFields × Option String) := do
  let firstName ← p.text qt row .firstName
  let lastName ← p.text qt row .lastName
  let age ← p.parseValue human.age row .age
  let rank ← p.parseValue human.rank row .rank
  let club ← p.text qt row .club
  let weight ← p.parseValue human.weight row .weight
  let country ← p.parseValue human.country row .country
  let sex ← p.parseValue human.sex row .sex
  let categoryName ← p.text qt row .category
  return ({ firstName, lastName, age, rank, club, weight, country, sex },
    if categoryName = "" then none else some categoryName)

/-- `import`, up to the action that it dispatches for the players and categories. -/
def importPlayers (p : PlayerTableImporter) : Except CSVAssertion (List (PlayerFields × Option String)) :=
  let offset := if p.hasHeaderRow then 1 else 0
  (List.range' offset (p.reader.rowCount - offset)).mapM (p.importRow qt human)

variable {qt human} {p p' : PlayerTableImporter}

/-- The columns that are set exist. -/
def Inside (columns : ImportColumn → Option ℕ) (columnCount : ℕ) : Prop :=
  ∀ column n, columns column = some n → n < columnCount

/-- The import does not read outside of the table. -/
def Imports (qt : QtText) (human : HumanStrings) (p : PlayerTableImporter) : Prop :=
  ∃ rows, p.importPlayers qt human = .ok rows

/-- The table has no row to import, or the columns that are set exist. -/
def Safe (p : PlayerTableImporter) : Prop :=
  p.reader.rowCount ≤ (if p.hasHeaderRow then 1 else 0) ∨ Inside p.columns p.reader.columnCount

/-! ### What the import reads -/

theorem cell_ok {row : ℕ} {column : ImportColumn} : (∃ str, p.cell row column = .ok str) ↔
    ∀ n, p.columns column = some n → row < p.reader.rowCount ∧ n < p.reader.columnCount := by
  unfold cell
  cases hcolumn : p.columns column with
  | none => exact ⟨fun _ n h => (nomatch h), fun _ => ⟨none, rfl⟩⟩
  | some n =>
    simp only [except_bind_ok, except_pure_ok]
    constructor
    · rintro ⟨_, str, hget, -⟩ _ ⟨⟩
      exact CSVReader.get_ok.1 ⟨str, hget⟩
    · intro h
      obtain ⟨str, hget⟩ := CSVReader.get_ok.2 (h n rfl)
      exact ⟨some str, str, hget, rfl⟩

theorem text_ok {row : ℕ} {column : ImportColumn} :
    (∃ str, p.text qt row column = .ok str) ↔ ∃ str, p.cell row column = .ok str := by
  simp only [text, except_bind_ok, except_pure_ok]
  constructor
  · rintro ⟨_, str, h, -⟩
    exact ⟨str, h⟩
  · rintro ⟨str, h⟩
    exact ⟨_, str, h, rfl⟩

theorem parseValue_ok {α : Type} {fromHumanString : QString → Option α} {row : ℕ} {column : ImportColumn} :
    (∃ val, p.parseValue fromHumanString row column = .ok val) ↔ ∃ str, p.cell row column = .ok str := by
  simp only [parseValue, except_bind_ok, except_pure_ok]
  constructor
  · rintro ⟨_, str, h, -⟩
    exact ⟨str, h⟩
  · rintro ⟨str, h⟩
    exact ⟨_, str, h, rfl⟩

/-- A row is imported by reading each column that is set. -/
theorem importRow_ok {row : ℕ} : (∃ r, p.importRow qt human row = .ok r) ↔
    ∀ column, ∃ str, p.cell row column = .ok str := by
  simp only [importRow, except_bind_ok, except_pure_ok]
  constructor
  · rintro ⟨_, _, hfirst, _, hlast, _, hage, _, hrank, _, hclub, _, hweight, _, hcountry, _, hsex, _,
      hcategory, -⟩ column
    cases column with
    | firstName => exact text_ok.1 ⟨_, hfirst⟩
    | lastName => exact text_ok.1 ⟨_, hlast⟩
    | age => exact parseValue_ok.1 ⟨_, hage⟩
    | rank => exact parseValue_ok.1 ⟨_, hrank⟩
    | club => exact text_ok.1 ⟨_, hclub⟩
    | weight => exact parseValue_ok.1 ⟨_, hweight⟩
    | country => exact parseValue_ok.1 ⟨_, hcountry⟩
    | sex => exact parseValue_ok.1 ⟨_, hsex⟩
    | category => exact text_ok.1 ⟨_, hcategory⟩
  · intro h
    obtain ⟨_, hfirst⟩ := text_ok.2 (h .firstName)
    obtain ⟨_, hlast⟩ := text_ok.2 (h .lastName)
    obtain ⟨_, hage⟩ := parseValue_ok.2 (h .age)
    obtain ⟨_, hrank⟩ := parseValue_ok.2 (h .rank)
    obtain ⟨_, hclub⟩ := text_ok.2 (h .club)
    obtain ⟨_, hweight⟩ := parseValue_ok.2 (h .weight)
    obtain ⟨_, hcountry⟩ := parseValue_ok.2 (h .country)
    obtain ⟨_, hsex⟩ := parseValue_ok.2 (h .sex)
    obtain ⟨_, hcategory⟩ := text_ok.2 (h .category)
    exact ⟨_, _, hfirst, _, hlast, _, hage, _, hrank, _, hclub, _, hweight, _, hcountry, _, hsex, _, hcategory, rfl⟩

theorem imports_iff : Imports qt human p ↔ p.Safe := by
  unfold Imports importPlayers Safe
  generalize (if p.hasHeaderRow then 1 else 0) = offset
  constructor
  · rintro ⟨rows, hrows⟩
    refine or_iff_not_imp_left.2 fun hlt column n hcolumn => ?_
    have hmem : offset ∈ List.range' offset (p.reader.rowCount - offset) := List.mem_range'_1.2 ⟨le_rfl, by omega⟩
    obtain ⟨r, -, hr⟩ := (except_mapM_ok hrows).1 offset hmem
    exact (cell_ok.1 (importRow_ok.1 ⟨r, hr⟩ column) n hcolumn).2
  · intro hsafe
    refine except_mapM_total fun row hrow => importRow_ok.2 fun column => cell_ok.2 fun n hcolumn => ?_
    have hrow := List.mem_range'_1.1 hrow
    exact ⟨by omega, hsafe.resolve_left (by omega) column n hcolumn⟩

/-! ### What is guessed -/

theorem guessHasHeaderRow_ok (qt : QtText) (p : PlayerTableImporter) :
    ∃ b, p.guessHasHeaderRow qt = .ok { p with hasHeaderRow := b } := by
  unfold guessHasHeaderRow
  split
  · exact ⟨false, rfl⟩
  · next hempty =>
    push Not at hempty
    have hread : ∀ column ∈ List.range p.reader.columnCount, ∃ cell, p.reader.get 0 column = .ok cell :=
      fun column hcolumn => CSVReader.get_ok.2 ⟨Nat.pos_of_ne_zero hempty.1, List.mem_range.1 hcolumn⟩
    obtain ⟨cells, hcells⟩ := except_mapM_total hread
    rw [hcells]
    exact ⟨_, rfl⟩

theorem inside_guessColumn {columns : ImportColumn → Option ℕ} {columnCount n : ℕ}
    (h : Inside columns columnCount)
    (hn : n < columnCount) (cell : QString) : Inside (guessColumn qt columns n cell) columnCount := by
  unfold guessColumn
  split
  · exact h
  · next header hfind =>
    intro column k hk
    by_cases hcolumn : column = header.1
    · rw [hcolumn, Function.update_self] at hk
      cases hk
      exact hn
    · rw [Function.update_of_ne hcolumn] at hk
      exact h column k hk

/-- The loop over the header row. -/
theorem foldlM_guessColumn_ok (qt : QtText) {reader : CSVReader} (hrow : 0 < reader.rowCount) {cells : List ℕ}
    (hcells : ∀ n ∈ cells, n < reader.columnCount) {columns : ImportColumn → Option ℕ}
    (h : Inside columns reader.columnCount) :
    ∃ columns', cells.foldlM (fun columns column => do
      let cell ← reader.get 0 column
      return guessColumn qt columns column cell) columns = Except.ok columns' ∧
        Inside columns' reader.columnCount := by
  induction cells generalizing columns with
  | nil => exact ⟨columns, rfl, h⟩
  | cons n cells ih =>
    have hn := hcells n List.mem_cons_self
    obtain ⟨cell, hcell⟩ := CSVReader.get_ok.2 ⟨hrow, hn⟩
    obtain ⟨columns', hok, hinside⟩ :=
      ih (fun k hk => hcells k (List.mem_cons_of_mem _ hk)) (inside_guessColumn h hn cell)
    refine ⟨columns', ?_, hinside⟩
    rw [List.foldlM_cons, hcell]
    exact hok

theorem guessColumns_ok (qt : QtText) (p : PlayerTableImporter) :
    ∃ columns, p.guessColumns qt = .ok { p with columns := columns } ∧ Inside columns p.reader.columnCount := by
  have hnone : Inside (fun _ => none) p.reader.columnCount := fun _ _ h => nomatch h
  unfold guessColumns
  split
  · exact ⟨_, rfl, hnone⟩
  · next hempty =>
    push Not at hempty
    obtain ⟨columns, hok, hinside⟩ := foldlM_guessColumn_ok qt (Nat.pos_of_ne_zero hempty.2.2)
      (fun n hn => List.mem_range.1 hn) hnone
    rw [hok]
    exact ⟨columns, rfl, hinside⟩

/-- The header and the columns are guessed together. -/
theorem guess_ok (qt : QtText) (p : PlayerTableImporter) : ∃ b columns,
    (p.guessHasHeaderRow qt >>= fun p => p.guessColumns qt) = .ok { p with hasHeaderRow := b, columns := columns } ∧
      Inside columns p.reader.columnCount := by
  obtain ⟨b, hb⟩ := guessHasHeaderRow_ok qt p
  obtain ⟨columns, hcolumns, hinside⟩ := guessColumns_ok qt { p with hasHeaderRow := b }
  exact ⟨b, columns, by rw [hb]; exact hcolumns, hinside⟩

/-! ### Runs of calls -/

/-- The calls of the import dialog. -/
inductive Call where
  | setDelimiter (del : QChar)
  | setHasHeaderRow (val : Bool)
  | setColumn (column : ImportColumn) (val : Option ℕ)

/-- A call, or none where an assertion fails. -/
def call (qt : QtText) (p : PlayerTableImporter) : Call → Option PlayerTableImporter
  | .setDelimiter del => (p.setDelimiter qt del).toOption
  | .setHasHeaderRow val => (p.setHasHeaderRow qt val).toOption
  | .setColumn column val => some (setColumn column p val)

/-- A column that is set exists when it is set. -/
def ColumnExists (p : PlayerTableImporter) (c : Call) : Prop :=
  ∀ column n, c = .setColumn column (some n) → n < p.reader.columnCount

/-- After a column has been set by hand, a new delimiter does not take away a column that is set, unless the table
has no row to import; and the first row does not become one while a column that is set is missing. -/
def KeepsColumns (qt : QtText) (p : PlayerTableImporter) : Call → Prop
  | .setDelimiter del => p.columnsManuallySet = true →
    p.reader.rowCount ≤ (if p.hasHeaderRow then 1 else 0) ∨
      Inside p.columns (p.reader.setDelimiter qt del).columnCount
  | .setHasHeaderRow val => p.columnsManuallySet = true →
    p.reader.rowCount ≤ (if val then 1 else 0) ∨ Inside p.columns p.reader.columnCount
  | .setColumn _ _ => True

/-- What holds after calls that keep the columns. -/
structure Invariant (qt : QtText) (p : PlayerTableImporter) : Prop where
  parsed : p.reader.Parsed qt
  safe : p.Safe
  guessed : p.columnsManuallySet = false → Inside p.columns p.reader.columnCount

variable {c : Call}

theorem setDelimiter_ok (qt : QtText) (p : PlayerTableImporter) (del : QChar) : ∃ b columns,
    p.setDelimiter qt del =
      .ok { p with reader := p.reader.setDelimiter qt del, hasHeaderRow := b, columns := columns } ∧
      (p.columnsManuallySet = true → b = p.hasHeaderRow ∧ columns = p.columns) ∧
      (p.columnsManuallySet = false → Inside columns (p.reader.setDelimiter qt del).columnCount) := by
  by_cases hset : p.columnsManuallySet = true
  · exact ⟨p.hasHeaderRow, p.columns, if_pos hset, fun _ => ⟨rfl, rfl⟩,
      fun h => absurd hset (by rw [h]; decide)⟩
  · obtain ⟨b, columns, hok, hinside⟩ := guess_ok qt { p with reader := p.reader.setDelimiter qt del }
    exact ⟨b, columns, (if_neg hset).trans hok, fun h => absurd h hset, fun _ => hinside⟩

theorem setHasHeaderRow_ok (qt : QtText) (p : PlayerTableImporter) (val : Bool) : ∃ columns,
    p.setHasHeaderRow qt val = .ok { p with hasHeaderRow := val, columns := columns } ∧
      (p.columnsManuallySet = true → columns = p.columns) ∧
      (p.columnsManuallySet = false → columns = p.columns ∨ Inside columns p.reader.columnCount) := by
  unfold setHasHeaderRow
  split
  · next heq => exact ⟨p.columns, by rw [← heq], fun _ => rfl, fun _ => .inl rfl⟩
  · by_cases hset : p.columnsManuallySet = true
    · exact ⟨p.columns, if_pos hset, fun _ => rfl, fun _ => .inl rfl⟩
    · obtain ⟨columns, hok, hinside⟩ := guessColumns_ok qt { p with hasHeaderRow := val }
      exact ⟨columns, (if_neg hset).trans hok, fun h => absurd h hset, fun _ => .inr hinside⟩

theorem exists_call (qt : QtText) (p : PlayerTableImporter) (c : Call) : ∃ p', p.call qt c = some p' := by
  cases c with
  | setDelimiter del =>
    obtain ⟨b, columns, hok, -⟩ := setDelimiter_ok qt p del
    exact ⟨_, by rw [call, hok]; rfl⟩
  | setHasHeaderRow val =>
    obtain ⟨columns, hok, -⟩ := setHasHeaderRow_ok qt p val
    exact ⟨_, by rw [call, hok]; rfl⟩
  | setColumn column val => exact ⟨_, rfl⟩

/-- A column that is set by hand. -/
theorem inside_update {columns : ImportColumn → Option ℕ} {columnCount : ℕ} {column : ImportColumn}
    {val : Option ℕ} (h : Inside columns columnCount) (hval : ∀ n, val = some n → n < columnCount) :
    Inside (Function.update columns column val) columnCount := by
  intro column' n hn
  by_cases hcolumn : column' = column
  · rw [hcolumn, Function.update_self] at hn
    exact hval n hn
  · rw [Function.update_of_ne hcolumn] at hn
    exact h column' n hn

theorem Invariant.rowCount_setDelimiter (h : Invariant qt p) (del : QChar) :
    (p.reader.setDelimiter qt del).rowCount = p.reader.rowCount := by
  rw [h.parsed.rowCount_eq, (CSVReader.parsed_setDelimiter p.reader del).rowCount_eq]
  rfl

theorem Invariant.call (h : Invariant qt p) (hexists : p.ColumnExists c) (hkeeps : p.KeepsColumns qt c)
    (hcall : p.call qt c = some p') : Invariant qt p' := by
  cases c with
  | setDelimiter del =>
    obtain ⟨b, columns, hok, hmanual, hguessed⟩ := setDelimiter_ok qt p del
    rw [PlayerTableImporter.call, hok] at hcall
    cases hcall
    refine ⟨CSVReader.parsed_parse _, ?_, hguessed⟩
    cases hset : p.columnsManuallySet with
    | true =>
      obtain ⟨rfl, rfl⟩ := hmanual hset
      refine (hkeeps hset).imp_left fun hle => ?_
      exact (h.rowCount_setDelimiter del).trans_le hle
    | false => exact .inr (hguessed hset)
  | setHasHeaderRow val =>
    obtain ⟨columns, hok, hmanual, hguessed⟩ := setHasHeaderRow_ok qt p val
    rw [PlayerTableImporter.call, hok] at hcall
    cases hcall
    have hinside : p.columnsManuallySet = false → Inside columns p.reader.columnCount := fun hset =>
      (hguessed hset).elim (fun heq => heq ▸ h.guessed hset) id
    refine ⟨h.parsed, ?_, hinside⟩
    cases hset : p.columnsManuallySet with
    | true =>
      obtain rfl := hmanual hset
      exact hkeeps hset
    | false => exact .inr (hinside hset)
  | setColumn column val =>
    cases hcall
    refine ⟨h.parsed, ?_, fun hset => nomatch hset⟩
    refine h.safe.imp_right fun hinside => inside_update hinside fun n hn => hexists column n ?_
    rw [hn]

/-- A call that takes away a column that is set leaves a table that cannot be imported. -/
theorem Invariant.break (h : Invariant qt p) (hkeeps : ¬p.KeepsColumns qt c) :
    ∃ p', p.call qt c = some p' ∧ ¬p'.Safe := by
  cases c with
  | setDelimiter del =>
    obtain ⟨b, columns, hok, hmanual, -⟩ := setDelimiter_ok qt p del
    obtain ⟨hset, hnot⟩ := Classical.not_imp.1 hkeeps
    obtain ⟨rfl, rfl⟩ := hmanual hset
    refine ⟨{ p with reader := p.reader.setDelimiter qt del }, by rw [PlayerTableImporter.call, hok]; rfl,
      fun hsafe => ?_⟩
    refine hnot (hsafe.imp_left fun hle => ?_)
    exact (h.rowCount_setDelimiter del).ge.trans hle
  | setHasHeaderRow val =>
    obtain ⟨columns, hok, hmanual, -⟩ := setHasHeaderRow_ok qt p val
    obtain ⟨hset, hnot⟩ := Classical.not_imp.1 hkeeps
    obtain rfl := hmanual hset
    exact ⟨{ p with hasHeaderRow := val }, by rw [PlayerTableImporter.call, hok]; rfl, hnot⟩
  | setColumn column val => exact absurd trivial hkeeps

theorem invariant_init {file : Option (List QString)} {columns : ℕ} {header : Bool}
    (h : init qt header (CSVReader.init qt columns file) = .ok p) : Invariant qt p := by
  unfold init at h
  split at h
  · next hclosed =>
    cases h
    have hnone : Inside (fun _ => none) (CSVReader.init qt columns file).columnCount := fun _ _ h => nomatch h
    exact ⟨CSVReader.parsed_init columns file, .inr hnone, fun _ => hnone⟩
  · obtain ⟨b, guessed, hok, hinside⟩ := guess_ok qt {
      reader := CSVReader.init qt columns file, hasHeaderRow := header,
      columnsManuallySet := false, columns := fun _ => none }
    rw [hok] at h
    cases h
    exact ⟨CSVReader.parsed_init columns file, .inr hinside, fun _ => hinside⟩

/-- Whatever the file and the calls are, the calls return, and the import stays inside of the table after each of
them if and only if the calls keep the columns that are set. -/
theorem run_imports_iff (qt : QtText) (human : HumanStrings) (columns : ℕ) (header : Bool)
    (file : Option (List QString)) (p : PlayerTableImporter)
    (hp : init qt header (CSVReader.init qt columns file) = .ok p) (calls : List Call)
    (hcalls : Guarded (call qt) ColumnExists calls p) :
    (∃ p', run (call qt) calls p = some p') ∧
      ((∀ calls₁ p', calls₁ <+: calls → run (call qt) calls₁ p = some p' → Imports qt human p') ↔
        Guarded (call qt) (KeepsColumns qt) calls p) := by
  refine ⟨?_, ?_⟩
  · obtain ⟨p', hrun, -⟩ :=
      run_total (fun p c _ _ => (exists_call qt p c).imp fun p' h => ⟨h, trivial⟩) trivial hcalls
    exact ⟨p', hrun⟩
  · simp only [imports_iff]
    refine (guarded_iff_of_rest
      (fun calls p (h : Invariant qt p ∧ Guarded (call qt) ColumnExists calls p) => h.1.safe)
      (fun c calls p p' ⟨hinv, hexists, hrest⟩ hkeeps hcall => ?_) (fun c calls p h hkeeps => h.1.break hkeeps)
      ⟨invariant_init hp, hcalls⟩).symm
    rw [hcall] at hrest
    exact ⟨hinv.call hexists hkeeps hcall, hrest⟩

/-- White space of the ASCII table. -/
def isAsciiSpace (c : QChar) : Bool := c == 32 || (decide (9 ≤ c) && decide (c ≤ 13))

/-- Qt on texts of the ASCII table. -/
def asciiText : QtText where
  trimmed s := ((s.dropWhile isAsciiSpace).reverse.dropWhile isAsciiSpace).reverse
  toLower s := s.map fun c => if 65 ≤ c ∧ c ≤ 90 then c + 32 else c
  toStdString s := String.ofList (s.map fun c => Char.ofNat c.toNat)

/-- No text is the value of a field. -/
def noValues : HumanStrings := ⟨fun _ => none, fun _ => none, fun _ => none, fun _ => none, fun _ => none⟩

/-- A table of one player with three columns. -/
def onePlayer : Option (List QString) := some [.ascii "Firstname;Club;Lastname", .ascii "A;B;C"]

/-- The club is set to the last column, then the delimiter is set. -/
def clubThenDelimiter (del : Char) : List Call := [.setColumn .club (some 2), .setDelimiter (.ascii del)]

/-- The delimiter that was guessed is set again. -/
theorem run_imports_iff_semicolon : ∃ p p', init asciiText false (CSVReader.init asciiText 0 onePlayer) = .ok p ∧
    run (call asciiText) (clubThenDelimiter ';') p = some p' ∧ Imports asciiText noValues p' := by
  refine ⟨_, _, rfl, rfl,
    ((run_imports_iff asciiText noValues 0 false onePlayer _ rfl (clubThenDelimiter ';') ?_).2.2 ?_)
    _ _ (List.prefix_refl _) rfl⟩
  · refine guarded_cons ?_ fun _ _ => guarded_cons (fun _ _ h => nomatch h) fun _ _ => trivial
    rintro column n ⟨⟩
    decide
  · refine guarded_cons trivial fun p₁ h₁ => guarded_cons (fun _ => .inr fun column n h => ?_) fun _ _ => trivial
    cases h₁
    cases column <;> cases h <;> decide

/-- Another delimiter leaves one column, and the import reads the third one. -/
theorem not_imports_comma : ∃ p p', init asciiText false (CSVReader.init asciiText 0 onePlayer) = .ok p ∧
    Guarded (call asciiText) ColumnExists (clubThenDelimiter ',') p ∧
    run (call asciiText) (clubThenDelimiter ',') p = some p' ∧
      p'.importPlayers asciiText noValues = .error .column := by
  refine ⟨_, _, rfl, guarded_cons ?_ fun _ _ => guarded_cons (fun _ _ h => nomatch h) fun _ _ => trivial, rfl, rfl⟩
  rintro column n ⟨⟩
  decide

end PlayerTableImporter

end JudoAssistant
