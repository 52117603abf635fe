import SlopeField.Text.CaseTable
import SlopeField.Text.HiddenTable

/-!
# Blanks, letter case and quoted text

Blanks are the characters that count as space between tokens, around values and
in blank lines: those with the Unicode property `White_Space`.

The lower-case form of a text goes by a table but for two letters: capital I with
a dot becomes two characters, and capital sigma has a second form for the end of
a word.

A quoted text stands between double quotes, on one line and with nothing hidden
in it: quotes and backslashes get a backslash, line ends and tabs their letters,
and every other character without a picture of its own its code point.
-/

namespace SlopeField.Text

def isBlank (c : Char) : Bool :=
  let n := c.toNat
  (9 ≤ n && n ≤ 13) || n == 0x20 || n == 0x85 || n == 0xA0 || n == 0x1680 ||
    (0x2000 ≤ n && n ≤ 0x200A) || n == 0x2028 || n == 0x2029 || n == 0x202F ||
    n == 0x205F || n == 0x3000

def trimList (cs : List Char) : List Char :=
  ((cs.dropWhile isBlank).reverse.dropWhile isBlank).reverse

def trim (s : String) : String := String.ofList (trimList s.toList)

theorem trimList_eq_nil_iff {cs : List Char} :
    trimList cs = [] ↔ ∀ c ∈ cs, isBlank c = true := by
  induction cs with
  | nil => simp [trimList]
  | cons c cs ih =>
    cases hc : isBlank c with
    | true => simpa [trimList, hc] using ih
    | false =>
      -- The first character stays at the end of what is trimmed backwards.
      have hne : (cs.reverse ++ [c]).dropWhile isBlank ≠ [] := by
        rw [List.dropWhile_append]
        split <;> simp [hc]
      simp [trimList, hc, hne]

/-- A class of characters is a list of ranges of code points, ends included. -/
def inRanges (ranges : List (Nat × Nat)) (c : Char) : Bool :=
  ranges.any fun (first, last) => first ≤ c.toNat && c.toNat ≤ last

def CaseRun.has (r : CaseRun) (n : Nat) : Bool :=
  r.first ≤ n && n ≤ r.last && (n - r.first) % r.stride == 0

def lowerChar? (c : Char) : Option Char :=
  (caseRuns.find? (·.has c.toNat)).map fun r => Char.ofNat ((c.toNat : Int) + r.offset).toNat

def startsCased (cs : List Char) : Bool :=
  (cs.dropWhile (inRanges ignorableRanges)).head?.any (inRanges casedRanges)

/-- Whether a word ends between two texts, the first of which is given from
its end: there is a letter before and none after. -/
def endsWord (before after : List Char) : Bool := startsCased before && !startsCased after

/-- The lower-case form of `cs` where it stands behind `before`, which is given
from its end. -/
def lowerFrom (before : List Char) : List Char → List Char
  | [] => []
  | c :: cs =>
    let here :=
      if c = 'İ' then ['i', '\u0307']
      else if c = 'Σ' && endsWord before cs then ['ς']
      else [(lowerChar? c).getD c]
    here ++ lowerFrom (c :: before) cs

def lowercase (s : String) : String := String.ofList (lowerFrom [] s.toList)

def escapeChar (c : Char) : List Char :=
  match c with
  | '"' => ['\\', '"']
  | '\\' => ['\\', '\\']
  | '\n' => ['\\', 'n']
  | '\r' => ['\\', 'r']
  | '\t' => ['\\', 't']
  | '\x00' => ['\\', '0']
  | c =>
    if inRanges hiddenRanges c then
      "\\u\x7b".toList ++ Nat.toDigits 16 c.toNat ++ "\x7d".toList
    else [c]

def quote (s : String) : String :=
  "\"" ++ String.ofList (s.toList.flatMap escapeChar) ++ "\""

end SlopeField.Text
