import RedRoomRewards.Ci.TenantScope
import RedRoomRewards.Text.Brackets

/-! The parenthesis that the tenant scope check finds, against a reading of the text in two
steps: it is first split into code, literals and comments, and only then are the
parentheses of the code matched. -/
namespace RedRoomRewards.TenantScopeCheck
open Text CodeUnit

section reading

/-- What a text is split into; all but code includes what delimits it. -/
inductive Segment where
  | code (c : CodeUnit)
  | quoted (text : List CodeUnit)
  | lineComment (text : List CodeUnit)
  | blockComment (text : List CodeUnit)

/-- For every code unit of the segment, that unit if it is code. -/
def Segment.marks : Segment → List (Option CodeUnit)
  | .code c => [some c]
  | .quoted text | .lineComment text | .blockComment text => text.map fun _ => none

/-- Strings have single or double quotes, template literals backticks. -/
def quotes : List CodeUnit := [singleQuote, doubleQuote, backtick]

/-- What may stand behind the opening quote `q` without closing it; a backslash takes the
next unit along. -/
inductive Quoted (q : CodeUnit) : List CodeUnit → Prop
  | nil : Quoted q []
  | plain {c text} (hquote : c ≠ q) (hescape : c ≠ backslash) (h : Quoted q text) : Quoted q (c :: text)
  | escape {c text} (h : Quoted q text) : Quoted q (backslash :: c :: text)

/-- The literal is still open at the end of the text. -/
inductive Unclosed (q : CodeUnit) : List CodeUnit → Prop
  | whole {text} (h : Quoted q text) : Unclosed q text
  | lone {text} (h : Quoted q text) : Unclosed q (text ++ [backslash])

/-- Neither a literal nor a comment begins with `c` where `rest` follows. -/
def IsCode (c : CodeUnit) (rest : List CodeUnit) : Prop :=
  c ∉ quotes ∧ ¬ (c = slash ∧ (rest.head? = some slash ∨ rest.head? = some asterisk))

/-- The text is split into these segments. -/
inductive Reads : List CodeUnit → List Segment → Prop
  | done : Reads [] []
  | code {c rest segments} (hcode : IsCode c rest) (h : Reads rest segments) :
      Reads (c :: rest) (.code c :: segments)
  | quoted {q text rest segments} (hquote : q ∈ quotes) (htext : Quoted q text) (h : Reads rest segments) :
      Reads (q :: (text ++ q :: rest)) (.quoted (q :: (text ++ [q])) :: segments)
  | unclosed {q text} (hquote : q ∈ quotes) (htext : Unclosed q text) :
      Reads (q :: text) [.quoted (q :: text)]
  | line {text rest segments} (htext : newline ∉ text) (h : Reads rest segments) :
      Reads (slash :: slash :: (text ++ newline :: rest))
        (.lineComment (slash :: slash :: (text ++ [newline])) :: segments)
  | lastLine {text} (htext : newline ∉ text) :
      Reads (slash :: slash :: text) [.lineComment (slash :: slash :: text)]
  | block {text rest segments} (htext : ¬ [asterisk, slash] <:+: text) (h : Reads rest segments) :
      Reads (slash :: asterisk :: (text ++ asterisk :: slash :: rest))
        (.blockComment (slash :: asterisk :: (text ++ [asterisk, slash])) :: segments)
  | lastBlock {text} (htext : ¬ [asterisk, slash] <:+: text) :
      Reads (slash :: asterisk :: text) [.blockComment (slash :: asterisk :: text)]

/-- The parenthesis that the text begins with is closed at `n`. -/
def ParenClosedAt (segments : List Segment) (n : ℕ) : Prop :=
  ClosedAt (some openParen) (some closeParen) (segments.flatMap Segment.marks) n

end reading

section splitting

/-- What follows a quote either closes the literal or leaves it open to the end. -/
private theorem quoted_or_unclosed (q : CodeUnit) (rest : List CodeUnit) :
    (∃ text rest', rest = text ++ q :: rest' ∧ Quoted q text) ∨ Unclosed q rest := by
  induction hlength : rest.length using Nat.strongRecOn generalizing rest with
  | ind n ih =>
    cases rest with
    | nil => exact .inr (.whole .nil)
    | cons c rest =>
      by_cases hquote : c = q
      · exact .inl ⟨[], rest, by rw [hquote]; rfl, .nil⟩
      · by_cases hescape : c = backslash
        · subst hescape
          cases rest with
          | nil => exact .inr (.lone .nil)
          | cons c rest =>
            rcases ih rest.length (by simp at hlength; omega) rest rfl with ⟨text, rest', rfl, htext⟩ | hopen
            · exact .inl ⟨backslash :: c :: text, rest', rfl, .escape htext⟩
            · cases hopen with
              | whole h => exact .inr (.whole (.escape h))
              | @lone text h => exact .inr (.lone (.escape h))
        · rcases ih rest.length (by simp at hlength; omega) rest rfl with ⟨text, rest', rfl, htext⟩ | hopen
          · exact .inl ⟨c :: text, rest', rfl, .plain hquote hescape htext⟩
          · cases hopen with
            | whole h => exact .inr (.whole (.plain hquote hescape h))
            | @lone text h => exact .inr (.lone (.plain hquote hescape h))

private theorem infix_cons {a b c : CodeUnit} {text : List CodeUnit} :
    [a, b] <:+: c :: text ↔ (c = a ∧ text.head? = some b) ∨ [a, b] <:+: text := by
  rw [List.infix_cons_iff]
  apply or_congr_left
  cases text with
  | nil => simp
  | cons d text => simp [eq_comm]

/-- The first place where a block comment can end. -/
private theorem block_or_open (text : List CodeUnit) :
    (∃ inner rest, text = inner ++ asterisk :: slash :: rest ∧ ¬ [asterisk, slash] <:+: inner) ∨
      ¬ [asterisk, slash] <:+: text := by
  induction text with
  | nil => exact .inr (by simp)
  | cons c text ih =>
    by_cases hends : c = asterisk ∧ text.head? = some slash
    · obtain ⟨rfl, hhead⟩ := hends
      obtain ⟨rest, rfl⟩ := List.head?_eq_some_iff.mp hhead
      exact .inl ⟨[], rest, rfl, by simp⟩
    · rcases ih with ⟨inner, rest, rfl, hinner⟩ | hopen
      · refine .inl ⟨c :: inner, rest, rfl, fun hinfix => ?_⟩
        rcases infix_cons.mp hinfix with ⟨hc, hhead⟩ | hinfix
        · obtain ⟨rest', rfl⟩ := List.head?_eq_some_iff.mp hhead
          exact hends ⟨hc, rfl⟩
        · exact hinner hinfix
      · refine .inr fun hinfix => ?_
        rcases infix_cons.mp hinfix with hhere | hinfix
        · exact hends hhere
        · exact hopen hinfix

/-- Every text can be split. -/
theorem exists_reads (text : List CodeUnit) : ∃ segments, Reads text segments := by
  induction hlength : text.length using Nat.strongRecOn generalizing text with
  | ind n ih =>
    cases text with
    | nil => exact ⟨[], .done⟩
    | cons c rest =>
      by_cases hquote : c ∈ quotes
      · rcases quoted_or_unclosed c rest with ⟨text, rest', rfl, htext⟩ | hopen
        · obtain ⟨segments, h⟩ := ih rest'.length (by simp at hlength; omega) rest' rfl
          exact ⟨_, .quoted hquote htext h⟩
        · exact ⟨_, .unclosed hquote hopen⟩
      · by_cases hcode : IsCode c rest
        · obtain ⟨segments, h⟩ := ih rest.length (by simp at hlength; omega) rest rfl
          exact ⟨_, .code hcode h⟩
        · obtain ⟨rfl, hnext⟩ : c = slash ∧ (rest.head? = some slash ∨ rest.head? = some asterisk) :=
            not_not.mp fun hnot => hcode ⟨hquote, hnot⟩
          rcases hnext with hnext | hnext <;> obtain ⟨text, rfl⟩ := List.head?_eq_some_iff.mp hnext
          · by_cases hline : newline ∈ text
            · obtain ⟨inner, rest', rfl, hinner⟩ := List.eq_append_cons_of_mem hline
              obtain ⟨segments, h⟩ := ih rest'.length (by simp at hlength; omega) rest' rfl
              exact ⟨_, .line hinner h⟩
            · exact ⟨_, .lastLine hline⟩
          · rcases block_or_open text with ⟨inner, rest', rfl, hinner⟩ | hopen
            · obtain ⟨segments, h⟩ := ih rest'.length (by simp at hlength; omega) rest' rfl
              exact ⟨_, .block hinner h⟩
            · exact ⟨_, .lastBlock hopen⟩

end splitting

section scanning

/-- The scanner is in code. -/
private def inCode (depth brackets braces : ℤ) : ScanState where
  depthParen := depth
  depthBracket := brackets
  depthBrace := braces

/-- The scanner is in a literal that `q` closes. -/
private def inQuotes (q : CodeUnit) (depth brackets braces : ℤ) : ScanState where
  depthParen := depth
  depthBracket := brackets
  depthBrace := braces
  inSingle := q = singleQuote
  inDouble := q = doubleQuote
  inBacktick := q = backtick

private def inLineComment (depth brackets braces : ℤ) : ScanState :=
  { inCode depth brackets braces with inLine := true }

private def inBlockComment (depth brackets braces : ℤ) : ScanState :=
  { inCode depth brackets braces with inBlock := true }

variable {q c : CodeUnit} {i : ℕ} {text rest : List CodeUnit} (depth brackets braces : ℤ)

private theorem scan_next {st st' : ScanState} (h : iteration st c rest.head? = .next st') :
    scan false st i (c :: rest) = scan false st' (i + 1) rest := by rw [scan, h]

private theorem scan_skip {st st' : ScanState} {d : CodeUnit} (h : iteration st c (some d) = .skip st') :
    scan false st i (c :: d :: rest) = scan false st' (i + 2) rest := by
  rw [scan, List.head?_cons, h]
  rfl

private theorem iteration_inQuotes (c : CodeUnit) (hquote : q ∈ quotes) (next : Option CodeUnit) :
    iteration (inQuotes q depth brackets braces) c next =
      if c = backslash then .skip (inQuotes q depth brackets braces)
      else .next (if c = q then inCode depth brackets braces else inQuotes q depth brackets braces) := by
  simp only [quotes, List.mem_cons, List.not_mem_nil, or_false] at hquote
  rcases hquote with rfl | rfl | rfl <;>
    simp [iteration, inQuotes, inCode, singleQuote, doubleQuote, backtick]

private theorem iteration_quote (hquote : q ∈ quotes) (next : Option CodeUnit) :
    iteration (inCode depth brackets braces) q next = .next (inQuotes q depth brackets braces) := by
  simp only [quotes, List.mem_cons, List.not_mem_nil, or_false] at hquote
  rcases hquote with rfl | rfl | rfl <;>
    simp [iteration, inQuotes, inCode, singleQuote, doubleQuote, backtick, slash]

/-- In code, only parentheses make a difference. -/
private theorem iteration_inCode (hcode : IsCode c rest) :
    (c = openParen → iteration (inCode depth brackets braces) c rest.head? =
      .next (inCode (depth + 1) brackets braces)) ∧
    (c = closeParen → iteration (inCode depth brackets braces) c rest.head? =
      if depth - 1 = 0 then .found else .next (inCode (depth - 1) brackets braces)) ∧
    (c ≠ openParen → c ≠ closeParen → ∃ brackets' braces', iteration (inCode depth brackets braces) c rest.head? =
      .next (inCode depth brackets' braces')) := by
  obtain ⟨hquote, hcomment⟩ := hcode
  have hsingle : c ≠ singleQuote := fun h => hquote (h ▸ .head _)
  have hdouble : c ≠ doubleQuote := fun h => hquote (h ▸ .tail _ (.head _))
  have hbacktick : c ≠ backtick := fun h => hquote (h ▸ .tail _ (.tail _ (.head _)))
  have hline : ¬ (c = slash ∧ rest.head? = some slash) := fun h => hcomment ⟨h.1, .inl h.2⟩
  have hblock : ¬ (c = slash ∧ rest.head? = some asterisk) := fun h => hcomment ⟨h.1, .inr h.2⟩
  have hiteration : iteration (inCode depth brackets braces) c rest.head? =
      if c = openParen then .next (inCode (depth + 1) brackets braces)
      else if c = closeParen then if depth - 1 = 0 then .found else .next (inCode (depth - 1) brackets braces)
      else if c = openBracket then .next (inCode depth (brackets + 1) braces)
      else if c = closeBracket then .next (inCode depth (brackets - 1) braces)
      else if c = openBrace then .next (inCode depth brackets (braces + 1))
      else if c = closeBrace then .next (inCode depth brackets (braces - 1))
      else .next (inCode depth brackets braces) := by
    simp only [iteration, inCode, Bool.false_eq_true, if_false, hsingle, hdouble, hbacktick, hline, hblock]
    rfl
  rw [hiteration]
  refine ⟨fun hopen => if_pos hopen, fun hclose => ?_, fun hopen hclose => ?_⟩
  · rw [if_neg (by rw [hclose]; decide), if_pos hclose]
  · rw [if_neg hopen, if_neg hclose]
    repeat' split
    all_goals exact ⟨_, _, rfl⟩

/-- A literal is scanned to the quote that closes it. -/
private theorem scan_quoted (hquote : q ∈ quotes) (htext : Quoted q text) :
    scan false (inQuotes q depth brackets braces) i (text ++ rest) =
      scan false (inQuotes q depth brackets braces) (i + text.length) rest := by
  induction htext generalizing i with
  | nil => rfl
  | @plain c text hne hescape _ ih =>
    have hiteration := iteration_inQuotes depth brackets braces c hquote (text ++ rest).head?
    rw [if_neg hescape, if_neg hne] at hiteration
    rw [List.cons_append, scan_next hiteration, ih, List.length_cons, Nat.add_assoc, Nat.add_comm 1]
  | @escape c text _ ih =>
    have hiteration := iteration_inQuotes depth brackets braces backslash hquote (some c)
    rw [if_pos rfl] at hiteration
    rw [List.cons_append, List.cons_append, scan_skip hiteration, ih, List.length_cons, List.length_cons]
    congr 1
    omega

private theorem scan_unclosed (hquote : q ∈ quotes) (htext : Unclosed q text) :
    scan false (inQuotes q depth brackets braces) i text = -1 := by
  cases htext with
  | whole h =>
    rw [← text.append_nil, scan_quoted depth brackets braces hquote h]
    rfl
  | lone h =>
    rw [scan_quoted depth brackets braces hquote h, scan, List.head?_nil,
      iteration_inQuotes depth brackets braces backslash hquote, if_pos rfl]
    rfl

private theorem scan_line (htext : newline ∉ text) :
    scan false (inLineComment depth brackets braces) i (text ++ rest) =
      scan false (inLineComment depth brackets braces) (i + text.length) rest := by
  induction text generalizing i with
  | nil => rfl
  | cons c text ih =>
    obtain ⟨hne, hrest⟩ := not_or.mp (List.mem_cons.not.mp htext)
    have hiteration : iteration (inLineComment depth brackets braces) c (text ++ rest).head? =
        .next (inLineComment depth brackets braces) := by
      simp [iteration, inLineComment, Ne.symm hne]
    rw [List.cons_append, scan_next hiteration, ih hrest, List.length_cons, Nat.add_assoc, Nat.add_comm 1]

private theorem scan_block (htext : ¬ [asterisk, slash] <:+: text) (hrest : rest.head? ≠ some slash) :
    scan false (inBlockComment depth brackets braces) i (text ++ rest) =
      scan false (inBlockComment depth brackets braces) (i + text.length) rest := by
  induction text generalizing i with
  | nil => rfl
  | cons c text ih =>
    obtain ⟨hhere, hlater⟩ := not_or.mp (infix_cons.not.mp htext)
    have hnot : ¬ (c = asterisk ∧ (text ++ rest).head? = some slash) := by
      rintro ⟨hc, hhead⟩
      cases text with
      | nil => exact hrest hhead
      | cons d text => exact hhere ⟨hc, hhead⟩
    have hiteration : iteration (inBlockComment depth brackets braces) c (text ++ rest).head? =
        .next (inBlockComment depth brackets braces) := by
      simp only [iteration, inBlockComment, inCode, Bool.false_eq_true, if_false, if_true, hnot]
    rw [List.cons_append, scan_next hiteration, ih hlater, List.length_cons, Nat.add_assoc, Nat.add_comm 1]

end scanning

section result
variable {brackets braces : ℤ} {i : ℕ} {text : List CodeUnit} {segments : List Segment}

/-- The index that the scanner returns for a place behind `i`. -/
private def indexFrom (i : ℕ) (place : Option ℕ) : ℤ := place.elim (-1) fun n => ((i + n : ℕ) : ℤ)

private theorem indexFrom_map (i k : ℕ) (place : Option ℕ) :
    indexFrom i (place.map (· + k)) = indexFrom (i + k) place := by
  cases place with
  | none => rfl
  | some n =>
    show ((i + (n + k) : ℕ) : ℤ) = ((i + k + n : ℕ) : ℤ)
    congr 1
    omega

private theorem indexFrom_eq_iff {found : Option ℕ} {P : ℕ → Prop} (h : ∀ n, found = some n ↔ P n) (j : ℤ) :
    indexFrom i found = j ↔ (∃ n : ℕ, P n ∧ j = i + n) ∨ (∀ n, ¬ P n) ∧ j = -1 := by
  cases hfound : found with
  | none =>
    have hnone : ∀ n, ¬ P n := by
      intro n hn
      rw [(h n).mpr hn] at hfound
      cases hfound
    constructor
    · exact fun hj => .inr ⟨hnone, hj.symm⟩
    · rintro (⟨n, hn, -⟩ | ⟨-, rfl⟩)
      · exact absurd hn (hnone n)
      · rfl
  | some n =>
    have hn := (h n).mp hfound
    constructor
    · rintro rfl
      exact .inl ⟨n, hn, Int.natCast_add i n⟩
    · rintro (⟨m, hm, rfl⟩ | ⟨hnone, -⟩)
      · obtain rfl : n = m := Option.some.inj (hfound.symm.trans ((h m).mpr hm))
        exact Int.natCast_add i n
      · exact absurd hn (hnone n)

/-- The place where the last open parenthesis of the segments is closed. -/
private def place (depth : ℕ) (segments : List Segment) : Option ℕ :=
  closing (some openParen) (some closeParen) depth (segments.flatMap Segment.marks)

/-- Literals and comments are passed over. -/
private theorem place_skip {segment : Segment} (text : List CodeUnit) (hmarks : segment.marks = text.map fun _ => none)
    (depth : ℕ) : place depth (segment :: segments) = (place depth segments).map (· + text.length) := by
  have hnone : ∀ a ∈ text.map fun _ => (none : Option CodeUnit), a ≠ some openParen ∧ a ≠ some closeParen := by
    intro a ha
    obtain ⟨-, -, rfl⟩ := List.mem_map.mp ha
    exact ⟨nofun, nofun⟩
  rw [place, List.flatMap_cons, hmarks, closing_append hnone, List.length_map]
  rfl

private theorem place_last {segment : Segment} (text : List CodeUnit) (hmarks : segment.marks = text.map fun _ => none)
    (depth : ℕ) : place depth [segment] = none := by
  rw [place_skip text hmarks]
  rfl

/-- A character of the code: a parenthesis opens or closes a level, anything else leaves the levels as they are. -/
private theorem scan_code {c : CodeUnit} {rest : List CodeUnit} (hcode : IsCode c rest)
    (hrest : ∀ {brackets braces : ℤ} {i depth : ℕ}, 0 < depth →
      scan false (inCode depth brackets braces) i rest = indexFrom i (place depth segments)) {depth : ℕ} (hdepth : 0 < depth) :
    scan false (inCode depth brackets braces) i (c :: rest) = indexFrom i (place depth (.code c :: segments)) := by
  obtain ⟨hopen, hclose, hother⟩ := iteration_inCode depth brackets braces hcode
  rw [place, List.flatMap_cons, Segment.marks, List.singleton_append, closing]
  by_cases hc : c = openParen
  · rw [scan_next (hopen hc), if_pos (congrArg some hc), indexFrom_map]
    exact hrest (Nat.succ_pos depth)
  · rw [if_neg fun heq => hc (Option.some.inj heq)]
    by_cases hc' : c = closeParen
    · have hclosed := hclose hc'
      rw [if_pos (congrArg some hc')]
      by_cases hone : depth = 1
      · rw [if_pos (by rw [hone]; rfl)] at hclosed
        rw [if_pos hone, scan, hclosed]
        rfl
      · have hcast : (depth : ℤ) - 1 = ((depth - 1 : ℕ) : ℤ) := by omega
        rw [if_neg (by omega), hcast] at hclosed
        rw [if_neg hone, scan_next hclosed, indexFrom_map]
        exact hrest (by omega)
    · obtain ⟨brackets', braces', hnext⟩ := hother hc hc'
      rw [if_neg fun heq => hc' (Option.some.inj heq), scan_next hnext, indexFrom_map]
      exact hrest hdepth

private theorem iteration_lineStart (depth : ℤ) : iteration (inCode depth brackets braces) slash (some slash) =
    .skip (inLineComment depth brackets braces) := by
  simp [iteration, inCode, inLineComment]

private theorem iteration_blockStart (depth : ℤ) : iteration (inCode depth brackets braces) slash (some asterisk) =
    .skip (inBlockComment depth brackets braces) := by
  simp [iteration, inCode, inBlockComment, slash, asterisk]

/-- The scanner finds in the text what the count of open parentheses finds in its segments. -/
private theorem scan_reads (h : Reads text segments) {depth : ℕ} (hdepth : 0 < depth) :
    scan false (inCode depth brackets braces) i text = indexFrom i (place depth segments) := by
  induction h generalizing depth i brackets braces with
  | done => rfl
  | code hcode _ ih => exact scan_code hcode ih hdepth
  | @quoted q text rest segments hquote htext _ ih =>
    have hend := iteration_inQuotes depth brackets braces q hquote rest.head?
    have hescape : q ≠ backslash := by
      rintro rfl
      exact absurd hquote (by decide)
    rw [if_neg hescape, if_pos rfl] at hend
    rw [scan_next (iteration_quote depth brackets braces hquote _), scan_quoted _ _ _ hquote htext, scan_next hend,
      ih hdepth, place_skip (q :: (text ++ [q])) rfl, indexFrom_map]
    congr 1
    simp
    omega
  | @unclosed q text hquote htext =>
    rw [scan_next (iteration_quote depth brackets braces hquote _), scan_unclosed _ _ _ hquote htext,
      place_last (q :: text) rfl]
    rfl
  | @line text rest segments htext _ ih =>
    have hend : iteration (inLineComment depth brackets braces) newline rest.head? =
        .next (inCode depth brackets braces) := by
      simp [iteration, inLineComment, inCode]
    rw [scan_skip (iteration_lineStart _), scan_line depth brackets braces htext, scan_next hend, ih hdepth,
      place_skip (slash :: slash :: (text ++ [newline])) rfl, indexFrom_map]
    congr 1
    simp
    omega
  | @lastLine text htext =>
    have hscan : scan false (inLineComment depth brackets braces) (i + 2) (text ++ []) = -1 :=
      scan_line depth brackets braces htext
    rw [List.append_nil] at hscan
    rw [scan_skip (iteration_lineStart _), hscan, place_last (slash :: slash :: text) rfl]
    rfl
  | @block text rest segments htext _ ih =>
    have hend : iteration (inBlockComment depth brackets braces) asterisk (some slash) =
        .skip (inCode depth brackets braces) := by
      simp [iteration, inBlockComment, inCode]
    have hhead : (asterisk :: slash :: rest).head? ≠ some slash := fun heq => absurd (Option.some.inj heq) (by decide)
    rw [scan_skip (iteration_blockStart _), scan_block depth brackets braces htext hhead, scan_skip hend, ih hdepth,
      place_skip (slash :: asterisk :: (text ++ [asterisk, slash])) rfl, indexFrom_map]
    congr 1
    simp
    omega
  | @lastBlock text htext =>
    have hscan : scan false (inBlockComment depth brackets braces) (i + 2) (text ++ []) = -1 :=
      scan_block depth brackets braces htext nofun
    rw [List.append_nil] at hscan
    rw [scan_skip (iteration_blockStart _), hscan, place_last (slash :: asterisk :: text) rfl]
    rfl

/-- From a parenthesis on, a text can be split into code, literals and comments, and
however it is split, the scanner returns the index where the parenthesis is closed in
code, or -1 if it is not closed. -/
theorem closing_paren_found {source : List CodeUnit} {openAt : ℕ} (hopen : source[openAt]? = some openParen) :
    (∃ segments, Reads (source.drop openAt) segments) ∧
    ∀ segments, Reads (source.drop openAt) segments → ∀ j : ℤ, matchClosingParen source openAt = j ↔
      (∃ n : ℕ, ParenClosedAt segments n ∧ j = openAt + n) ∨ (∀ n, ¬ ParenClosedAt segments n) ∧ j = -1 := by
  refine ⟨exists_reads _, fun segments hreads j => ?_⟩
  obtain ⟨hlt, hget⟩ := List.getElem?_eq_some_iff.mp hopen
  rw [List.drop_eq_getElem_cons hlt, hget] at hreads
  generalize htext : openParen :: source.drop (openAt + 1) = text at hreads
  cases hreads with
  | done => cases htext
  | quoted hquote =>
    obtain ⟨rfl, -⟩ := List.cons.inj htext
    exact absurd hquote (by decide)
  | unclosed hquote =>
    obtain ⟨rfl, -⟩ := List.cons.inj htext
    exact absurd hquote (by decide)
  | line | lastLine | block | lastBlock =>
    obtain ⟨hslash, -⟩ := List.cons.inj htext
    exact absurd hslash (by decide)
  | @code _ _ segments hcode h =>
    obtain ⟨rfl, rfl⟩ := List.cons.inj htext
    have hne : some openParen ≠ some closeParen := by decide
    have hscan : matchClosingParen source openAt = indexFrom openAt (place 0 (.code openParen :: segments)) := by
      rw [matchClosingParen, List.drop_eq_getElem_cons hlt, hget]
      have hnext := (iteration_inCode 0 0 0 hcode).1 rfl
      rw [place, List.flatMap_cons, Segment.marks, List.singleton_append, closing, if_pos rfl, indexFrom_map]
      exact (scan_next hnext).trans (scan_reads h Nat.one_pos)
    rw [hscan]
    exact indexFrom_eq_iff (fun n => closing_start_iff hne) j

end result

section scenario

/-- A parenthesis in a string does not close the one in the code. -/
theorem closing_paren_found_behind_string :
    ∃ segments, Reads [openParen, doubleQuote, closeParen, doubleQuote, closeParen] segments ∧
      ParenClosedAt segments 4 := by
  obtain ⟨⟨segments, hreads⟩, hfound⟩ := closing_paren_found
    (show [openParen, doubleQuote, closeParen, doubleQuote, closeParen][0]? = some openParen from rfl)
  have hscan : matchClosingParen [openParen, doubleQuote, closeParen, doubleQuote, closeParen] 0 = 4 := by decide
  rcases (hfound segments hreads 4).mp hscan with ⟨n, hn, hindex⟩ | ⟨-, hnone⟩
  · obtain rfl : n = 4 := by omega
    exact ⟨segments, hreads, hn⟩
  · cases hnone

end scenario
end RedRoomRewards.TenantScopeCheck
