/-! # Character classes and identifiers

A class of characters is given by the lengths of its runs: runs of code points outside and inside
the class alternate, and the first is outside.  Lengths are written in base 26: capital letters
lead, and a small letter ends a number.  A name starts with a letter or underscore and goes on with
letters, digits, marks and underscores. -/

namespace FormKernel.Text

def readLengths (n : Nat) : List Char → List Nat
  | [] => []
  | c :: cs =>
    if c.isUpper then readLengths (26 * n + (c.toNat - 'A'.toNat)) cs
    else (26 * n + (c.toNat - 'a'.toNat)) :: readLengths 0 cs

def runs (lines : List String) : List Nat := readLengths 0 (lines.flatMap String.toList)

/-- Whether a code point is in a class with given runs, the first of which is inside or outside. -/
def inRuns (inside : Bool) : List Nat → Nat → Bool
  | [], _ => inside
  | n :: runs, c => if c < n then inside else inRuns (!inside) runs (c - n)

/-- Whether a character is in the class with the given runs. -/
def inClass (runs : List Nat) (c : Char) : Bool := inRuns false runs c.toNat

/-- Characters between words. -/
def isSpace (c : Char) : Bool :=
  let n := c.toNat
  (9 ≤ n && n ≤ 13) || (28 ≤ n && n ≤ 32) || n == 0x85 || n == 0xa0 || n == 0x1680 ||
  (0x2000 ≤ n && n ≤ 0x200a) || n == 0x2028 || n == 0x2029 || n == 0x202f || n == 0x205f ||
  n == 0x3000

/-- Runs of characters that may start a name. -/
def startRuns : List Nat := runs [
  "CnBaebbBaBvbkbebfxbBfbRqemofhbbbEzfbcddbbgbbdbbbubDfbFjiGkbBmcbgBpCtBbeeBtBrBjcbDvbbpchckdcbqb",
  "bBeBdDllbyBhjcebfwebjbdbxzhlfybgrBqCgCcdbsbhkpqeicccwbhbbdedbqbncbdockbigeccwbhbcbcbcBfebbtdqj",
  "bdbwbhbcbfdbsbpcxblicccwbhbcbfdbBecbdpbrbbgddbedcbbbcdcdddmwbCaibdbxbqdbBadcbccBebeibdbxbkbfdb",
  "BfcbcpcrjbdbBpcbqbfdidygfsdybjbbchCgBwbbnhCgcbbbfbybbbkbbkbcfbbveBgbClibBkBbfElBrubqgeedbdchde",
  "nmbrBmbbfbcBrbMvbechbbbecBpbecBhbechbbbecpbCfbecCpBlqqDicgdXwcrbBafCxdlhsntosonbdpCaBjbebCpDlh",
  "BpbbfCskBfBxBecflBseBaCcxjCbDebDpBvriCcBenckBsBaBkBpdkBkcjhBrcdBpebgbcdbfHkCmKscgcBmcgcibbbbbb",
  "bBfcCbbhbbddbhdecgenfdbhEmbnbqnDxbebckbbcggbbbbbbqceffebrBpDZbIvgedcmBmbbfbcCehbqxjhbhbhbhbhbh",
  "bhbhVedzjhfcfeDigdbDmbefBrbDqrBgBwqTsJToCmBGUfCpBucKjdqkcuBvqBfcDcBnjcDzcCmfcbbbfyqbdbebxBdCao",
  "ByCkgdbbclBckxzBdhBvBcbqfbkkfbBpxdbiuxdbdBybbdccfcbbbydclhdmgcgcgjhbhbBrbogElBdQNsmxeBxMNcOccE",
  "cBmhmffbbkbnbfbbbcbcbEeBhFjgIksCmcCcBokEpbbbdbbbbbbbbEwBkBagBalCecBfdgcgcgcdBjmbBabtbcbpcoBiEt",
  "CrCbKhBddBxBvBgnBefBmkBecBkeibfBqGcsBkeBkeBoiCamlbpbhbcblbpbhbcCpLzjwkiygbBqbjCrgcbbBsbcdbcxkx",
  "jBfCntbckwkBaCsCegcCmbpebdbBdBqBddBdBjibBcBbCckwktnsEgCvCdBznBznBkNkBqgcDaBdkbiwBqsBuvBbxmCbCf",
  "ccbnBtBgzBaBkBdbcbiBjdbmBwoevbbbBjsbzDghbbbebpbkhBvBmicccwbhbcbfdbsbmfGcCbseudBeBwucbbHcBvBpeB",
  "kBwubChBrnbCtBbBlhHdBsEmCmBficbcibcbypbbbDqicBnqbbbBcbkBohbvblButbsCvKdjbBlrbBxBeEihbcbBmvbzgb",
  "cbBgobMptHhbDbBJmDyEhrHoDXkDtpBPfFZtWlMUbVxhBfrDbrBesBwqeBfvftBAmCmEyCxfbConCmcbbBcJCaiBVqBqjN",
  "FrebhbcbLfBtdreiPgDKuEdfndjhkIWkDhbCtbccbcccebmbbbhbCnbecibhbBcbebfbbdhbNcczbzbBfbzbBfbzbBfbzb",
  "BfbzbiCSyBfSnBtkhqbMjBesBsBWuhbebcbpbHpChCqhbBUiebBbbcbbcbbkbebbbbgbebbbbbbdbcbbcbbbbbbbbbbcbb",
  "cebhbebebbbkbrfdbfbrGOaCLFcBgGDthIocINqoLBlEPjUwCFyHHz"]

/-- Runs of characters that may stand inside a name but not start it. -/
def innerRuns : List Nat := runs [
  "BwkEvbWmEixbJrfKfBtbbbcbcbbCulBwBfgbDxhcgccbeckxbBeBbDnlpkBhjjbyebjbdbfBrdCiiBqybBhCcdbsbhkcck",
  "rdCebbhcccdjbkcckobcdCebbfeccddbumdbldCebbibdbducckkgbdCebbhcccdhdkccksbChfddbejbokqfCdbbhbdbe",
  "hclcckrdCebbhbdbehclcckqeCdcbhbdbejbkcckrdCsbegbbbigkccCjbbimibkDjbbklgckCkcgklbbbbbecBxubcflb",
  "BkjbDwubkmeedbdchdenmbpBBbdjjBJseBcdBdcBecCmBgjbckBhdblFnbEomemkkEylCifCfkbBdclgkwobqBxfBvrlkr",
  "jmdBenckBsoBwuikgkEodbvebgbcdHqCmWdctbEtnebdmEOcdFlbDsBgVigEbcBSNdkCrbekBgcDccKmbdbebxfebDfcBy",
  "skkgsnlBciznBseBvopklbkkBvombicckBhdBybbdccfcbbBpffcJcibcckBDZgbBCjqqqdcydHkkBlbDqcXhbIsbFtfLh",
  "kCApdbcfeBodebGjcWbeikOfcFxlBxeEsdCbpBflcckeBtlhbBtkgdBkobkfcBsbmdBwoiebmDemgbGemfkgeCdcbhcccd",
  "jbkcchdfHksjkebDdumkIfhcjBbcDerpkDdnikDfpekJipGjkCsgbccebbbcmkEphchdbBckBohbeibjlBuqPpibiqkCew",
  "boEsgdbbcbhbbikBwfbcbfikMreBCOnkDikBmfChhzkBMzbbCdheDdblcBDAxcGYzBucxUwfdgiichBeeFsdCCnByTsCde",
  "ByibobwfbpCAihbrchbcbfKbhjkNsbCjoCFmhEfhfkHBakBSVGwJg"]

def startsName (c : Char) : Bool := inClass startRuns c

/-- Whether a character may stand inside a name. -/
def inName (c : Char) : Bool := startsName c || inClass innerRuns c

def isIdentifier (s : String) : Bool :=
  match s.toList with
  | [] => false
  | c :: cs => startsName c && cs.all inName

/-- Characters that may start a name although they are no letters. -/
def nonLetters : List Nat := [95, 6277, 6278, 8472, 8494]

/-- Runs of letters and numbers that may not start a name. -/
def numberRuns : List Nat := runs [
  "BwkEqcfbcdBAxbBCnkFekHqkPwkEokegEekEokEokcgEgnElkihDzkEahhtEfkCpbBckDlbBckCsuKikCskBBruBRfkgkw",
  "kLokEylGjkgkHakDikFekgkBOgbdggkHqqBpbBByCiDawYgBeCBhbLtbBHieFikBeibpBgkBnpBRSakTygFykBmkHqkwkD",
  "ikPqkBELogPqcEmbbbbbbbbbbbbbbbFpkFccNvBtCnercNdBbBkeOqkBKgizhBnjCxfwgGeccqcBuCmjCacBedCxfEaiyi",
  "BphMsgBwkLiBfGckBqeEihFeBeEykCikFokhuJrkNekEokOkkDykDymQetDpkBDeBdItkCskUovBCFzkDikFekbhBEsxBL",
  "ZluEezBQrByDNckQgkCFdjEykBElChbdbeCyBtbpBLanEDfk"]

/-- Whether a character is a letter or has a numeric value. -/
def isLetterOrNumber (c : Char) : Bool :=
  startsName c && !nonLetters.contains c.toNat || inClass numberRuns c

end FormKernel.Text
