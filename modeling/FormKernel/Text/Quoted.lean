import FormKernel.Text.Identifier

/-! # Texts in quotes and brackets

A text between quotes.  The single quote is used unless the text holds a single quote and
no double quote; the chosen quote and the backslash are escaped, and so is every
character that cannot be shown. -/

namespace FormKernel.Text

def inSquares (items : List String) : String := "[" ++ ", ".intercalate items ++ "]"

/-- Texts in round brackets; a single text is followed by a comma, which tells the list from a value
    in brackets. -/
def inRounds : List String → String
  | [x] => "(" ++ x ++ ",)"
  | xs => "(" ++ ", ".intercalate xs ++ ")"

/-- Runs of printable characters that stand in no name. -/
def symbolRuns : List Nat := runs [
  "BgqkhBaebbBaeBijbcbhbbbcbfxbBfbRqemofhbbbrEnbebdbfcEibFjbfcIagBpccdBubbbcbcbBscrklbbdCweDybjbk",
  "btcboIyeecBwpBfbBpbIlckbEzkbbEqbErcEwbbgEqlEujebHubihrkEsbCwbpbkcGjxcgklbbbbbeCtbCeibgbnEhgDac",
  "DnbXojjltkDybXwcBscDadCtcGbdbeukglLxbdcFwBiBecEyhbgqbFzrjlEveChfCkcCmilbBCrbbdldndndncryipctbk",
  "rbdlbprBhBcebdBbcbebckbbcggbbbbbbqceffebrBpdeZnzlvCRscBgbEbIvgohEibFnDqBiBabDlmIgBamfedzpbfcfd",
  "DncdbDmbFsqBgBkBcBfbSmJToCmBGUiCdCdcKjdDsekbElgixjcDzcGbeekCgeDicBodbbBxcBvbDtnqcEuexdDwcqcEbb",
  "ocExbBEAfbFgrFzgIksExbBqgqkwdcyddbtbeebbbbbbbbbbbbbbbFapkhBaebbBalEshbhncJydeBtdjCbBabndbBvBtI",
  "uBbBkeEtbBwbPybBCpjxjBnjCxfwgdbBfbEuccqcBuCmjhjBkdBddBobBimCohyiyizemhMsgNoBfBubEhkBqjBseChhEt",
  "heuDhcbeEweBwcDbeebnbbdbuCpgEdbQbfkcbbEabJqxEbdBcnCybEygJrbGsjDddFzbDoiDfdbfPyfutdcYvcHrBynbBR",
  "sfEJccWDvcFdbCnjecvhBEsBbMpbBDBlbcbHCaEmCiJmkBncCifdwchBeeCjvCodbFyumDjjzBGibzbBfbzbBfbzbBfbzb",
  "BfbzbCiTsCdeByibobhCOpbQpbCExjFmcBEfCqCyCjQscKkBseDwmpcpbpbBlkGsCeBdnBsejhcogFyBLwfqdndEmmDlhm",
  "ebpmeCeikgBoiBeccDaNcmocfdfdhjBddlfgkkgiihjFrbCd"]

/-- Whether a character is shown as it is in a quoted text. -/
def isPrintable (c : Char) : Bool := inName c || inClass symbolRuns c

/-- A number in lower-case hexadecimal digits, filled up with zeros to a width. -/
def hex (width n : Nat) : String :=
  let digits := Nat.toDigits 16 n
  String.ofList (List.replicate (width - digits.length) '0' ++ digits)

/-- A character inside a quoted text. -/
def escape (quote c : Char) : String :=
  if c == quote || c == '\\' then String.ofList ['\\', c]
  else if c == '\n' then "\\n"
  else if c == '\r' then "\\r"
  else if c == '\t' then "\\t"
  else if isPrintable c then c.toString
  else if c.toNat < 0x100 then "\\x" ++ hex 2 c.toNat
  else if c.toNat < 0x10000 then "\\u" ++ hex 4 c.toNat
  else "\\U" ++ hex 8 c.toNat

def quoted (s : String) : String :=
  let quote := if s.contains '\'' && !s.contains '"' then '"' else '\''
  quote.toString ++ String.join (s.toList.map (escape quote)) ++ quote.toString

end FormKernel.Text
