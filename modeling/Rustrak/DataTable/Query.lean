import Mathlib.Data.List.Basic

/-!
# The query of a data table

`data-table/query.ts`: what is filtered, sorted and paged, as one string of tokens and as the
parameters of an address.  A token `key:value` whose key names a filterable column is a filter,
by the codec of the column's variant; every other token is free text.

A string is its UTF-16 code units.  `Number` and `String` of the language are `Numbers`, with
no value for NaN.
-/

namespace Rustrak.DataTable

abbrev Text := List UInt16

/-- The code unit of an ASCII character. -/
def unit (c : Char) : UInt16 := c.toNat.toUInt16

def ascii (s : String) : Text := s.toList.map unit

def space : UInt16 := unit ' '
def quote : UInt16 := unit '"'
def backslash : UInt16 := unit '\\'
def comma : UInt16 := unit ','
def colon : UInt16 := unit ':'
def dot : UInt16 := unit '.'
def minus : UInt16 := unit '-'

/-- What `.` of a regular expression does not match. -/
def isLineEnd (c : UInt16) : Bool :=
  c == 0x0a || c == 0x0d || c == 0x2028 || c == 0x2029

/-- `\s` of a regular expression. -/
def isSpace (c : UInt16) : Bool :=
  c == 0x09 || c == 0x0b || c == 0x0c || c == 0x20 || c == 0xa0 || c == 0x1680 ||
    (0x2000 ≤ c && c ≤ 0x200a) || c == 0x202f || c == 0x205f || c == 0x3000 || c == 0xfeff ||
    isLineEnd c

/-- `[A-Za-z0-9_.-]`. -/
def isKeyUnit (c : UInt16) : Bool :=
  (unit 'A' ≤ c && c ≤ unit 'Z') || (unit 'a' ≤ c && c ≤ unit 'z') ||
    (unit '0' ≤ c && c ≤ unit '9') || c == unit '_' || c == dot || c == minus

/-- The numbers of the language, of which only this is used. -/
structure Numbers (N : Type) where
  /-- `Number` of a string, if it is not NaN. -/
  number : Text → Option N
  string : N → Text
  zero : N
  /-- The value of a number for which `Number.isInteger` holds. -/
  asInt : N → Option Int
  /-- `n > i`. -/
  exceeds : N → Int → Bool
  plusOne : N → N
  minusOne : N → N

/-! ## Strings -/

/-- `split` at one code unit. -/
def splitAt (separator : UInt16) : Text → Text → List Text
  | [], current => [current]
  | c :: rest, current =>
      if c = separator then current :: splitAt separator rest [] else splitAt separator rest (current ++ [c])

/-- `split('..')`. -/
def splitDots : Text → Text → List Text
  | [], current => [current]
  | [c], current => [current ++ [c]]
  | c :: d :: rest, current =>
      if c = dot ∧ d = dot then current :: splitDots rest []
      else splitDots (d :: rest) (current ++ [c])

/-- `join`. -/
def joinWith (separator : Text) : List Text → Text
  | [] => []
  | [s] => s
  | s :: t :: rest => s ++ separator ++ joinWith separator (t :: rest)

/-- `[...new Set(entries)]`. -/
def setOf {α : Type} [DecidableEq α] (entries : List α) : List α :=
  entries.foldl (fun found entry => if entry ∈ found then found else found ++ [entry]) []

/-! ## Tokens -/

def pushCurrent (current : Text) (tokens : List Text) : List Text :=
  if current.isEmpty then tokens else current :: tokens

/-- The loop of `tokenize`, from a token begun and inside quotes or not. -/
def tokenizeFrom : Text → Text → Bool → List Text
  | [], current, _ => pushCurrent current []
  | [c], current, quoted =>
      if c = quote then tokenizeFrom [] current (!quoted)
      else if c = space ∧ quoted = false then pushCurrent current (tokenizeFrom [] [] quoted)
      else tokenizeFrom [] (current ++ [c]) quoted
  | c :: d :: rest, current, quoted =>
      if quoted = true ∧ c = backslash ∧ (d = quote ∨ d = backslash) then
        tokenizeFrom rest (current ++ [d]) quoted
      else if c = quote then tokenizeFrom (d :: rest) current (!quoted)
      else if c = space ∧ quoted = false then
        pushCurrent current (tokenizeFrom (d :: rest) [] quoted)
      else tokenizeFrom (d :: rest) (current ++ [c]) quoted

def tokenize (input : Text) : List Text := tokenizeFrom input [] false

def needsQuoting (value : Text) : Bool :=
  value.any fun c => isSpace c || c == quote || c == backslash

/-- The two replacements, of backslashes and then of quotes. -/
def escaped (value : Text) : Text :=
  value.flatMap fun c =>
    if c = backslash then [backslash, backslash]
    else if c = quote then [backslash, quote]
    else [c]

def quoteValue (value : Text) : Text := quote :: (escaped value ++ [quote])

def quoted (value : Text) : Text := if needsQuoting value then quoteValue value else value

/-! ## Codecs -/

/-- An entry of an array in the filter state. -/
inductive Entry (N : Type)
  | string (s : Text)
  | number (n : N)
  | null
  deriving DecidableEq

inductive FilterValue (N : Type)
  | array (entries : List (Entry N))
  | string (s : Text)
  deriving DecidableEq

inductive ParsedValue (N : Type)
  | filter (value : FilterValue N)
  | text
  | drop

inductive ParsedToken (N : Type)
  | filter (id : Text) (value : FilterValue N)
  | text
  | drop
  deriving DecidableEq

inductive Variant
  | options
  | range
  | text
  deriving DecidableEq, Repr

structure FilterCodec (N : Type) where
  parse : Text → ParsedValue N
  format : FilterValue N → Option Text

variable {N : Type} (numbers : Numbers N)

/-- An entry in a string, nothing for null. -/
def Entry.print : Entry N → Text
  | .string s => s
  | .number n => numbers.string n
  | .null => []

def optionsCodec : FilterCodec N where
  parse raw :=
    let values := (splitAt comma raw []).filter fun value => !value.isEmpty
    if values.isEmpty then .drop else .filter (.array (values.map .string))
  format
    | .array entries =>
        if entries.isEmpty then none
        else some (quoted (joinWith [comma] (entries.map (Entry.print numbers))))
    | .string _ => none

/-- One end of a range: nothing for an open one, or a number. -/
def parseBound (part : Text) : Option (Entry N) :=
  if part.isEmpty then some .null else (numbers.number part).map .number

def parseRange (raw : Text) : Option (Entry N × Entry N) :=
  match splitDots raw [] with
  | [first, last] =>
      match parseBound numbers first, parseBound numbers last with
      | some .null, some .null => none
      | some min, some max => some (min, max)
      | _, _ => none
  | _ => none

def rangeCodec : FilterCodec N where
  parse raw :=
    match parseRange numbers raw with
    | some (min, max) => .filter (.array [min, max])
    | none => .text
  format
    | .array (.null :: .null :: _) => none
    | .array entries =>
        let bound (entry : Option (Entry N)) := (entry.map (Entry.print numbers)).getD []
        some (bound entries[0]? ++ [dot, dot] ++ bound entries[1]?)
    | .string _ => none

def textCodec : FilterCodec N where
  parse raw := .filter (.string raw)
  format
    | .string s => if s.isEmpty then none else some (quoted s)
    | .array _ => none

def codec : Variant → FilterCodec N
  | .options => optionsCodec numbers
  | .range => rangeCodec numbers
  | .text => textCodec

/-! ## Filters and free text -/

/-- A property of the table of variants: one of its own, none, or one that every object has,
which is no variant. -/
inductive Property
  | variant (v : Variant)
  | absent
  | inherited
  deriving DecidableEq, Repr

abbrev FilterVariants := Text → Property

/-- `token.match(TOKEN)`. -/
def matchToken (token : Text) : Option (Text × Text) :=
  match token.dropWhile isKeyUnit with
  | c :: raw =>
      let id := token.takeWhile isKeyUnit
      if !id.isEmpty && c == colon && raw.all (fun c => !isLineEnd c) then some (id, raw) else none
  | [] => none

/-- `parseToken`: `none` where it throws, having found no codec. -/
def parseToken (variants : FilterVariants) (token : Text) : Option (ParsedToken N) :=
  match matchToken token with
  | none => some .text
  | some (id, raw) =>
      match variants id with
      | .absent => some .text
      | .inherited => if raw.isEmpty then some .drop else none
      | .variant v =>
          if raw.isEmpty then some .drop
          else
            match (codec numbers v).parse raw with
            | .filter value => some (.filter id value)
            | .text => some .text
            | .drop => some .drop

structure ColumnFilter (N : Type) where
  id : Text
  value : FilterValue N
  deriving DecidableEq

/-- The loop of `parseFilterQuery`: the filters and the free text of some tokens. -/
def parseTokens (variants : FilterVariants) :
    List Text → Option (List (ColumnFilter N) × List Text)
  | [] => some ([], [])
  | token :: tokens => do
      let parsed ← parseToken numbers variants token
      let (filters, text) ← parseTokens variants tokens
      match parsed with
      | .text => return (filters, token :: text)
      | .filter id value => return (⟨id, value⟩ :: filters, text)
      | .drop => return (filters, text)

variable [DecidableEq N]

/-- What the value of a key becomes when the key comes again. -/
def mergeValue : FilterValue N → FilterValue N → FilterValue N
  | .array old, .array new => .array (setOf (old ++ new))
  | _, new => new

/-- One turn of the loop of `mergeFilters`. -/
def mergeFilter (filter : ColumnFilter N) : List (ColumnFilter N) → List (ColumnFilter N)
  | [] => [filter]
  | existing :: merged =>
      if existing.id = filter.id then
        { existing with value := mergeValue existing.value filter.value } :: merged
      else existing :: mergeFilter filter merged

def mergeFilters (filters : List (ColumnFilter N)) : List (ColumnFilter N) :=
  filters.foldl (fun merged filter => mergeFilter filter merged) []

def parseFilterQuery (input : Text) (variants : FilterVariants) :
    Option (List (ColumnFilter N) × Text) := do
  let (filters, text) ← parseTokens numbers variants (tokenize input)
  return (mergeFilters filters, joinWith [space] text)

omit [DecidableEq N] in
/-- The token of one filter. -/
def formatFilter (variants : FilterVariants) (filter : ColumnFilter N) : Option Text :=
  match variants filter.id with
  | .variant v =>
      ((codec numbers v).format filter.value).map fun formatted =>
        filter.id ++ colon :: formatted
  | _ => none

omit [DecidableEq N] in
def formatFilterQuery (filters : List (ColumnFilter N)) (search : Text)
    (variants : FilterVariants) : Text :=
  joinWith [space] (filters.filterMap (formatFilter numbers variants) ++
    if search.isEmpty then [] else [quoted search])

/-! ## The address -/

structure SortEntry where
  id : Text
  desc : Bool
  deriving DecidableEq

structure DataTableQuery (N : Type) where
  sorting : List SortEntry
  filters : List (ColumnFilter N)
  search : Text
  pageIndex : N
  pageSize : N
  deriving DecidableEq

/-- `URLSearchParams`, by the parameters that are read. -/
structure Params where
  q : Option Text
  sort : Option Text
  page : Option Text
  per : Option Text
  deriving DecidableEq

/-- One part of the `sort` parameter. -/
def parseSort (part : Text) : SortEntry :=
  match part with
  | [] => ⟨[], false⟩
  | c :: rest => if c = minus then ⟨rest, true⟩ else ⟨part, false⟩

def printSort (entry : SortEntry) : Text :=
  if entry.desc then minus :: entry.id else entry.id

/-- An integer parameter above `bound`; a missing one is zero. -/
def integerAbove (param : Option Text) (bound : Int) : Option N :=
  (param.bind numbers.number).filter fun n => (numbers.asInt n).isSome && numbers.exceeds n bound

def parseTableQuery (params : Params) (variants : FilterVariants) (pageSize : N) :
    Option (DataTableQuery N) := do
  let (filters, search) ←
    match params.q with
    | some q => if q.isEmpty then some ([], []) else parseFilterQuery numbers q variants
    | none => some ([], [])
  let sorting :=
    match params.sort with
    | some sort => ((splitAt comma sort []).filter fun part => !part.isEmpty).map parseSort
    | none => []
  return {
    sorting, filters, search
    pageIndex := ((integerAbove numbers params.page 1).map numbers.minusOne).getD numbers.zero
    pageSize := (integerAbove numbers params.per 0).getD pageSize }

def serializeTableQuery (query : DataTableQuery N) (variants : FilterVariants) (pageSize : N) :
    Params :=
  let q := formatFilterQuery numbers query.filters query.search variants
  { q := if q.isEmpty then none else some q
    sort :=
      if query.sorting.isEmpty then none
      else some (joinWith [comma] (query.sorting.map printSort))
    page :=
      if numbers.exceeds query.pageIndex 0 then
        some (numbers.string (numbers.plusOne query.pageIndex))
      else none
    per := if query.pageSize = pageSize then none else some (numbers.string query.pageSize) }

end Rustrak.DataTable
