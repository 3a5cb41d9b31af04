import FormKernel.Text.Numeral

/-! # Reading the command line

Words that start with a dash are options as far as they can be: a long name may be shortened while
it stays unique and may have its value after an equals sign, a short name may have its value or
other short names attached.  The first run of other words are the files.  After `--` all words are
files. -/

namespace FormKernel.CommandLine

/-! ## What options there are -/

inductive Takes where
  | nothing
  | text
  | whole
  | real
  | oneOf (choices : List String)
  /-- Nothing; the option shows something and ends the program. -/
  | ending
  deriving DecidableEq

def Takes.value : Takes → Bool
  | .nothing | .ending => false
  | _ => true

/-- An option: its names, the key of its value and what it takes. -/
structure Switch where
  names : List String
  key : String
  takes : Takes
  deriving DecidableEq

def switches : List Switch := [
  ⟨["-h", "--help"], "help", .ending⟩,
  ⟨["--version"], "version", .ending⟩,
  ⟨["-o", "--output-directory"], "output_directory", .text⟩,
  ⟨["--visualise"], "visualise", .nothing⟩,
  ⟨["-p", "--profile"], "profile", .nothing⟩,
  ⟨["--epsilon"], "epsilon", .real⟩,
  ⟨["--scalar_type"], "scalar_type", .oneOf ["float32", "float64", "complex64", "complex128"]⟩,
  ⟨["--sum_factorization"], "sum_factorization", .nothing⟩,
  ⟨["--table_rtol"], "table_rtol", .real⟩,
  ⟨["--table_atol"], "table_atol", .real⟩,
  ⟨["--verbosity"], "verbosity", .whole⟩]

/-- Values of options that are not given. -/
def unset : Entries Json := [
  ("output_directory", .text "."), ("visualise", .bool false), ("profile", .bool false),
  ("sum_factorization", .bool false)]

/-- A value that is attached to an option, after an equals sign or directly. -/
structure Attached where
  text : String
  afterSign : Bool
  deriving DecidableEq

inductive Token where
  | plain (word : String)
  /-- The word after which there are no options. -/
  | separator
  | switch (s : Switch) (name : String) (attached : Option Attached)
  /-- A word that looks like an option and is none. -/
  | stray
  deriving DecidableEq

def switchNamed? (name : String) : Option Switch := switches.find? fun s => s.names.contains name

/-- Splits a word at its first equals sign. -/
def splitSign (word : String) : String × Option Attached :=
  let cs := word.toList
  let front := String.ofList (cs.takeWhile (· != '='))
  match cs.dropWhile (· != '=') with
  | [] => (front, none)
  | _ :: rest => (front, some ⟨String.ofList rest, true⟩)

def allNames : List (String × Switch) := switches.flatMap fun s => s.names.map fun n => (n, s)

/-- The options that a word may stand for although it is not their full name. -/
def candidates (word : String) : List Token :=
  match word.toList with
  | '-' :: '-' :: _ =>
    let (front, attached) := splitSign word
    allNames.filterMap fun (n, s) =>
      if front.isPrefixOf n then some (.switch s n attached) else none
  | d :: c :: rest =>
    let short := String.ofList [d, c]
    allNames.filterMap fun (n, s) =>
      if n == short then some (.switch s n (some ⟨String.ofList rest, false⟩))
      else if word.isPrefixOf n then some (.switch s n none)
      else none
  | _ => []

/-- Whether a word is a negative number without exponent. -/
def isNegativeNumber (word : String) : Bool :=
  match word.toList with
  | '-' :: cs =>
    let whole := cs.takeWhile Char.isDigit
    match cs.dropWhile Char.isDigit with
    | [] => !whole.isEmpty
    | '.' :: fraction => !fraction.isEmpty && fraction.all Char.isDigit
    | _ => false
  | _ => false

/-- What a word is; a word that may stand for several options is nothing. -/
def classify (word : String) : Option Token :=
  match word.toList with
  | '-' :: _ :: _ =>
    let (front, attached) := splitSign word
    match switchNamed? word, switchNamed? front, candidates word with
    | some s, _, _ => some (.switch s word none)
    | none, some s, _ => some (.switch s front attached)
    | none, none, [token] => some token
    | none, none, [] =>
      some (if isNegativeNumber word || word.toList.contains ' ' then .plain word else .stray)
    | none, none, _ => none
  | _ => some (.plain word)

def tokens : List String → Option (List Token)
  | [] => some []
  | "--" :: rest => some (.separator :: rest.map .plain)
  | word :: rest => do
    let token ← classify word
    return token :: (← tokens rest)

/-! ## Options in one word -/

/-- What a word with options asks for. -/
structure Bundle where
  /-- Options that are complete, with their values. -/
  complete : List (Switch × String) := []
  /-- The option that takes the next word as its value. -/
  pending : Option Switch := none
  /-- Whether a part of the word is no option. -/
  stray : Bool := false

/-- Whether a name is a single letter after a dash. -/
def isShort (name : String) : Bool :=
  match name.toList with
  | _ :: c :: _ => c != '-'
  | _ => false

/-- What is attached to an option, without the letter of the option. -/
def attachedRest : List Char → Option Attached
  | [] => none
  | '=' :: rest => some ⟨String.ofList rest, true⟩
  | rest => some ⟨String.ofList rest, false⟩

/-- Takes apart a word of options: what is attached to a short name without value are further
    short names.  Nothing if a value is attached to an option that takes none. -/
def unbundle : Nat → Switch → String → Option Attached → Option Bundle
  | _, s, _, none =>
    some (if s.takes.value then { pending := some s } else { complete := [(s, "")] })
  | fuel, s, name, some a =>
    if s.takes.value then some { complete := [(s, a.text)] }
    else match fuel, a.text.toList with
      | fuel + 1, c :: rest =>
        if !isShort name || a.afterSign || c == '-' then none
        else
          let next := String.ofList ['-', c]
          match switchNamed? next with
          | none => some { complete := [(s, "")], stray := true }
          | some s' => do
            let bundle ← unbundle fuel s' next (attachedRest rest)
            return { bundle with complete := (s, "") :: bundle.complete }
      | _, _ => none

/-! ## Reading -/

structure Progress where
  values : Entries Json := unset
  files : Option (List String) := none
  stray : Bool := false

/-- Why a command line asks for no compilation. -/
inductive Stop where
  /-- An option shows something and ends the program. -/
  | shows (key : String)
  | misuse
  deriving DecidableEq

def Stop.code : Stop → Nat
  | .shows _ => 0
  | .misuse => 2

/-- What a command line asks for: files to compile and the values of options. -/
structure Command where
  values : Entries Json
  files : List String

def valueOf (takes : Takes) (word : String) : Option Json :=
  match takes with
  | .nothing | .ending => some (.bool true)
  | .text => some (.text word)
  | .whole => (Text.whole? word).map .int
  | .real => (Text.real? word).map .float
  | .oneOf choices => if choices.contains word then some (.text word) else none

/-- Sets options one after the other, unless one of them ends the program. -/
def setAll (p : Progress) : List (Switch × String) → Except Stop Progress
  | [] => .ok p
  | (s, word) :: rest =>
    if s.takes == .ending then .error (.shows s.key)
    else match valueOf s.takes word with
      | some v => setAll { p with values := p.values.put s.key v } rest
      | none => .error .misuse

def Token.isOption : Token → Bool
  | .switch .. | .stray => true
  | _ => false

def wordsOf (ts : List Token) : List String :=
  ts.filterMap fun
    | .plain word => some word
    | _ => none

/-- Takes a run of words that are not options: the first run are the files. -/
def takeWords (p : Progress) (run : List Token) : Progress :=
  match p.files, wordsOf run with
  | none, [] => { p with stray := true }
  | none, words => { p with files := some words }
  | some _, _ => { p with stray := true }

def readTokens : Nat → Progress → List Token → Except Stop Progress
  | 0, p, _ | _, p, [] => .ok p
  | fuel + 1, p, .stray :: rest => readTokens fuel { p with stray := true } rest
  | fuel + 1, p, .switch s name attached :: rest =>
    match unbundle ((attached.map (·.text.length)).getD 0 + 1) s name attached with
    | none => .error .misuse
    | some bundle =>
      let p := { p with stray := p.stray || bundle.stray }
      match bundle.pending, rest with
      | none, _ => do readTokens fuel (← setAll p bundle.complete) rest
      | some s, .plain word :: rest => do
        readTokens fuel (← setAll p (bundle.complete ++ [(s, word)])) rest
      | some _, _ => .error .misuse
  | fuel + 1, p, ts =>
    let run := ts.takeWhile fun t => !t.isOption
    readTokens fuel (takeWords p run) (ts.drop run.length)

def read (words : List String) : Except Stop Command := do
  let some ts := tokens words | throw .misuse
  let p ← readTokens (ts.length + 1) {} ts
  match p.files, p.stray with
  | some files, false =>
    return { values := p.values.put "ufl_file" (Json.list (files.map .text)), files }
  | _, _ => throw .misuse

end FormKernel.CommandLine
