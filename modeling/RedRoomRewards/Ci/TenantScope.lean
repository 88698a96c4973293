import RedRoomRewards.Text.CodePoints
import RedRoomRewards.Text.RegExp
import Mathlib.Data.Int.Notation
import Mathlib.Data.List.Infix

/-! The tenant scope check: the scanner that looks for the end of the arguments of a call, the
search for calls without a tenant, and the list of those that are allowed. -/
namespace RedRoomRewards.TenantScopeCheck
open CodeUnit

/-- The variables of the loop; the counts of brackets and braces are never read. -/
structure ScanState where
  depthParen : ℤ := 0
  depthBracket : ℤ := 0
  depthBrace : ℤ := 0
  inSingle : Bool := false
  inDouble : Bool := false
  inBacktick : Bool := false
  inLine : Bool := false
  inBlock : Bool := false

/-- How an iteration ends: it goes on at the next unit, or behind that after an `i++`, or
it returns. -/
inductive Iteration where
  | next (st : ScanState)
  | skip (st : ScanState)
  | found

def iteration (st : ScanState) (ch : CodeUnit) (next : Option CodeUnit) : Iteration :=
  if st.inLine then .next (if ch = newline then { st with inLine := false } else st)
  else if st.inBlock then
    if ch = asterisk ∧ next = some slash then .skip { st with inBlock := false } else .next st
  else if st.inSingle then
    if ch = backslash then .skip st
    else .next (if ch = singleQuote then { st with inSingle := false } else st)
  else if st.inDouble then
    if ch = backslash then .skip st
    else .next (if ch = doubleQuote then { st with inDouble := false } else st)
  else if st.inBacktick then
    if ch = backslash then .skip st
    else .next (if ch = backtick then { st with inBacktick := false } else st)
  else if ch = slash ∧ next = some slash then .skip { st with inLine := true }
  else if ch = slash ∧ next = some asterisk then .skip { st with inBlock := true }
  else if ch = singleQuote then .next { st with inSingle := true }
  else if ch = doubleQuote then .next { st with inDouble := true }
  else if ch = backtick then .next { st with inBacktick := true }
  else if ch = openParen then .next { st with depthParen := st.depthParen + 1 }
  else if ch = closeParen then
    if st.depthParen - 1 = 0 then .found else .next { st with depthParen := st.depthParen - 1 }
  else if ch = openBracket then .next { st with depthBracket := st.depthBracket + 1 }
  else if ch = closeBracket then .next { st with depthBracket := st.depthBracket - 1 }
  else if ch = openBrace then .next { st with depthBrace := st.depthBrace + 1 }
  else if ch = closeBrace then .next { st with depthBrace := st.depthBrace - 1 }
  else .next st

/-- The loop from index `i` on, where the rest of the source stands; `skip` says that the
unit there is passed over. -/
def scan : Bool → ScanState → ℕ → List CodeUnit → ℤ
  | _, _, _, [] => -1
  | true, st, i, _ :: rest => scan false st (i + 1) rest
  | false, st, i, ch :: rest =>
    match iteration st ch rest.head? with
    | .next st => scan false st (i + 1) rest
    | .skip st => scan true st (i + 1) rest
    | .found => i

def matchClosingParen (source : List CodeUnit) (openAt : ℕ) : ℤ := scan false {} openAt (source.drop openAt)

section patterns
open Text RegExp

/-- `[A-Z]`, `\w` and `\s`. -/
def upper (c : CodeUnit) : Bool := 65 ≤ c && c ≤ 90
def word (c : CodeUnit) : Bool := upper c || 97 ≤ c && c ≤ 122 || 48 ≤ c && c ≤ 57 || c = 95
def space (c : CodeUnit) : Bool :=
  c ∈ [9, 10, 11, 12, 13, 32, 0xA0, 0x1680, 0x2028, 0x2029, 0x202F, 0x205F, 0x3000, 0xFEFF] ||
    0x2000 ≤ c && c ≤ 0x200A

def fullStop : CodeUnit := 46
def colon : CodeUnit := 58

def queryMethods : List (List CodeUnit) := [
  "find", "findOne", "findById", "findOneAndUpdate", "findOneAndDelete", "findOneAndReplace",
  "updateOne", "updateMany", "deleteOne", "deleteMany", "countDocuments", "distinct"].map utf16

/-- `\b([A-Z][A-Za-z0-9_]*Model)\.(find|…)\s*\(`. -/
def callPattern : RegExp CodeUnit := seqs [
  boundary word, group 1 (seqs [unit upper, many word, text (utf16 "Model")]), text [fullStop],
  group 2 (alts (queryMethods.map text)), many space, text [openParen]]

/-- `\btenant_id\b`. -/
def tenantPattern : RegExp CodeUnit := seqs [boundary word, text (utf16 "tenant_id"), boundary word]

end patterns

section violations
open Text

/-- A directory, as `readdirSync` lists it; `source` is the text of a file. -/
inductive Entry where
  | file (name source : List CodeUnit)
  | directory (name : List CodeUnit) (entries : List Entry)
  | other (name : List CodeUnit)

def isExcludedFile (rel : List CodeUnit) : Bool :=
  (utf16 ".spec.ts").isSuffixOf rel || (utf16 ".test.ts").isSuffixOf rel ||
    decide (utf16 "/__tests__/" <:+: rel)

mutual

/-- The files below an entry of the directory `path`, each with its path. -/
def walkEntry (path : List CodeUnit) : Entry → List (List CodeUnit × List CodeUnit)
  | .file name source => if (utf16 ".ts").isSuffixOf name then [(path ++ slash :: name, source)] else []
  | .directory name entries => walkTs (path ++ slash :: name) entries
  | .other _ => []

def walkTs (path : List CodeUnit) : List Entry → List (List CodeUnit × List CodeUnit)
  | [] => []
  | entry :: entries => walkEntry path entry ++ walkTs path entries

end

structure Violation where
  file : List CodeUnit
  line : ℕ
  model : List CodeUnit
  method : List CodeUnit
  deriving DecidableEq

def lineFor (source : List CodeUnit) (idx : ℕ) : ℕ :=
  (source.take idx).foldl (fun line c => if c = newline then line + 1 else line) 1

/-- One round of the loop over the matches in a file. -/
def violation (rel source : List CodeUnit) (m : RegExp.Place CodeUnit × RegExp.Place CodeUnit) : Option Violation :=
  let callOpen := m.2.before.length - 1
  let callClose := matchClosingParen source callOpen
  if callClose < 0 then none
  else
    let argSpan := (source.take callClose.toNat).drop (callOpen + 1)
    if tenantPattern.test argSpan then none
    else some ⟨rel, lineFor source m.1.before.length, (m.2.captured 1).getD [], (m.2.captured 2).getD []⟩

/-- The findings in one file; `none` would say that the loop over its matches does not end. -/
def fileViolations (rel source : List CodeUnit) : Option (List Violation) :=
  (callPattern.execLoop source (source.length + 1) 0).map fun found => found.filterMap (violation rel source)

/-- The target directories, each with its entries. -/
def findViolations (dirs : List (List CodeUnit × List Entry)) : Option (List Violation) := do
  let found ← (dirs.flatMap fun dir => walkTs dir.1 dir.2).mapM fun file =>
    if isExcludedFile file.1 then some [] else fileViolations file.1 file.2
  pure found.flatten

end violations

section baseline

def keyOf (v : Violation) : List CodeUnit :=
  v.file ++ colon :: (utf16 (toString v.line) ++ colon :: (v.model ++ fullStop :: v.method))

inductive Mode where
  | check
  | report
  | updateBaseline

/-- The exit code, and the list of allowed violations that the run leaves on the disk.
`localeCompare a b` says that `a` does not come behind `b`. -/
def main (localeCompare : List CodeUnit → List CodeUnit → Bool) (dirs : List (List CodeUnit × List Entry)) (allowlist : List Violation)
    (mode : Mode) : Option (ℕ × List Violation) := do
  let v ← findViolations dirs
  match mode with
  | .updateBaseline => pure (0, v.mergeSort fun a b => localeCompare (keyOf a) (keyOf b))
  | .check | .report =>
    let newViolations := v.filter fun x => !(allowlist.map keyOf).contains (keyOf x)
    pure (if newViolations = [] then 0 else 1, allowlist)

end baseline

end RedRoomRewards.TenantScopeCheck
