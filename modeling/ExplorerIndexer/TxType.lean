import ExplorerIndexer.Extract

/-!
# The type filter

`?type=` names a transaction type: by its name in any case, or by its type byte as a single digit,
with white space around it.

## Main definitions

* `parseTxType`, `txTypeName` — the functions of the source
-/

namespace ExplorerIndexer

/-- The characters with the Unicode property `White_Space`. -/
def isWhitespace (c : Char) : Bool :=
  let n := c.toNat
  (9 ≤ n && n ≤ 13) || n = 0x20 || n = 0x85 || n = 0xa0 || n = 0x1680 ||
    (0x2000 ≤ n && n ≤ 0x200a) || n = 0x2028 || n = 0x2029 || n = 0x202f || n = 0x205f || n = 0x3000

/-- `str::trim`. -/
def trim (cs : List Char) : List Char :=
  ((cs.dropWhile isWhitespace).reverse.dropWhile isWhitespace).reverse

/-- `eq_ignore_ascii_case`. -/
def eqIgnoreAsciiCase (a b : List Char) : Bool := a.map Char.toLower = b.map Char.toLower

/-- Name for a type byte; `"unknown"` above the table. -/
def txTypeName (txType : ℕ) : String := TX_TYPE_NAMES[txType]?.getD "unknown"

/-- Parse a `?type=` value: a name in any case, or exactly one digit below the table's length.
Anything else is `none`. -/
def parseTxType (s : String) : Option ℕ :=
  let s := trim s.toList
  match TX_TYPE_NAMES.findIdx? fun name => eqIgnoreAsciiCase name.toList s with
  | some idx => some idx
  | none =>
    match s with
    | [d] =>
      if '0' ≤ d ∧ d ≤ '9' ∧ d.toNat - '0'.toNat < TX_TYPE_NAMES.length then
        some (d.toNat - '0'.toNat)
      else none
    | _ => none

example : ["EIP1559", " legacy\n", "4", "5", "02", "+2", "blob", ""].map parseTxType =
    [some 2, some 0, some 4, none, none, none, none, none] := by decide +kernel

end ExplorerIndexer
