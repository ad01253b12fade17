import CalcHeuristics.Stdio.Line

/-!
# A reader of comma-separated values

The reader goes through a line character by character, with the states of Python's `csv.reader` in its
default dialect: fields are separated by a delimiter, a field may be quoted, a quote in a quoted field is
doubled, and a quoted field may go on in the next line. On text without quotes all this comes down to
splitting every line at the delimiters, which is `reader_of_plain`.
-/

namespace Csv

inductive State where
  | startRecord
  | startField
  | inField
  | inQuotedField
  | quoteInQuotedField
  | eatCrnl
  deriving DecidableEq

/-- The record being read, and the field at its end. -/
structure Parser where
  state : State
  field : List Char
  fields : List (List Char)

inductive Error where
  /-- A line break in the middle of a line. -/
  | lineBreak
  deriving DecidableEq

namespace Parser

/-- Before a record. -/
def reset : Parser := ⟨.startRecord, [], []⟩

def saveField (p : Parser) (state : State) : Parser := ⟨state, [], p.fields ++ [p.field]⟩

def addChar (p : Parser) (state : State) (c : Char) : Parser := ⟨state, p.field ++ [c], p.fields⟩

def isLineBreak (c : Char) : Bool := c = '\n' || c = '\r'

section
variable (delimiter : Char) (p : Parser) (c : Char)

/-- A character at the beginning of a field. -/
def startOfField : Parser :=
  if isLineBreak c then p.saveField .eatCrnl
  else if c = '"' then { p with state := .inQuotedField }
  else if c = delimiter then p.saveField .startField
  else p.addChar .inField c

def processChar : Except Error Parser :=
  match p.state with
  | .startRecord =>
    if isLineBreak c then .ok { p with state := .eatCrnl } else .ok (p.startOfField delimiter c)
  | .startField => .ok (p.startOfField delimiter c)
  | .inField =>
    if isLineBreak c then .ok (p.saveField .eatCrnl)
    else if c = delimiter then .ok (p.saveField .startField)
    else .ok (p.addChar .inField c)
  | .inQuotedField =>
    if c = '"' then .ok { p with state := .quoteInQuotedField }
    else .ok (p.addChar .inQuotedField c)
  | .quoteInQuotedField =>
    if c = '"' then .ok (p.addChar .inQuotedField c)
    else if c = delimiter then .ok (p.saveField .startField)
    else if isLineBreak c then .ok (p.saveField .eatCrnl)
    else .ok (p.addChar .inField c)
  | .eatCrnl => if isLineBreak c then .ok p else .error .lineBreak

end

/-- The end of a line. -/
def endLine (p : Parser) : Parser :=
  match p.state with
  | .startRecord => p
  | .startField | .inField | .quoteInQuotedField => p.saveField .startRecord
  | .inQuotedField => p
  | .eatCrnl => { p with state := .startRecord }

def processLine (delimiter : Char) (p : Parser) (line : List Char) : Except Error Parser :=
  (line.foldlM (processChar delimiter) p).map endLine

end Parser

/-- The records of some lines, the first of which may begin inside a record. -/
def records (delimiter : Char) : Parser → List (List Char) → Except Error (List (List (List Char)))
  | p, [] =>
    if p.field ≠ [] ∨ p.state = .inQuotedField then .ok [(p.saveField .startRecord).fields]
    else .ok []
  | p, line :: lines => do
    let p ← p.processLine delimiter line
    if p.state = .startRecord then
      return p.fields :: (← records delimiter .reset lines)
    else records delimiter p lines

/-- What a file opened as text gives for a line break of any kind. -/
def universalNewlines : List Char → List Char
  | '\r' :: '\n' :: rest => '\n' :: universalNewlines rest
  | '\r' :: rest => '\n' :: universalNewlines rest
  | c :: rest => c :: universalNewlines rest
  | [] => []

/-- `list(csv.reader(f))` for a file with this text -/
def reader (delimiter : Char) (text : List Char) : Except Error (List (List (List Char))) :=
  records delimiter .reset (Stdio.lines (fun c => c = '\n') (universalNewlines text))

/-! ### Text without quotes -/

/-- The fields of a line: what stands between the delimiters, and nothing for an empty line. -/
def splitLine (delimiter : Char) (line : List Char) : List (List Char) :=
  let body := line.filter fun c => c ≠ '\n'
  if body = [] then [] else body.splitOn delimiter

theorem length_splitOn (delimiter : Char) (body : List Char) :
    (body.splitOn delimiter).length = body.count delimiter + 1 := by
  induction body with
  | nil => rfl
  | cons c body ih =>
      rw [List.splitOn_cons_eq_if_modifyHead, List.count_cons]
      split
      · rw [List.length_cons, ih]
      · rw [List.length_modifyHead, ih, Nat.add_zero]

/-- The first field ends at the first delimiter. -/
theorem exists_splitOn (delimiter : Char) (body : List Char) :
    ∃ rest, body.splitOn delimiter = body.takeWhile (· ≠ delimiter) :: rest := by
  induction body with
  | nil => exact ⟨[], rfl⟩
  | cons c body ih =>
      obtain ⟨rest, hrest⟩ := ih
      rw [List.splitOn_cons_eq_if_modifyHead, hrest]
      by_cases hc : c = delimiter
      · exact ⟨_, by rw [if_pos (by simpa using hc), List.takeWhile_cons_of_neg (by simpa using hc)]⟩
      · exact ⟨rest, by
          rw [if_neg (by simpa using hc), List.takeWhile_cons_of_pos (by simpa using hc)]
          rfl⟩

theorem mem_of_mem_splitOn {delimiter c : Char} {body field : List Char}
    (h : field ∈ body.splitOn delimiter) (hc : c ∈ field) : c ∈ body := by
  induction body generalizing field with
  | nil =>
      obtain rfl := List.mem_singleton.1 h
      exact hc
  | cons d body ih =>
      rw [List.splitOn_cons_eq_if_modifyHead] at h
      obtain ⟨first, rest, hsplit⟩ := List.exists_cons_of_ne_nil (List.splitOn_ne_nil delimiter body)
      rw [hsplit] at h ih
      split at h
      · obtain rfl | h := List.mem_cons.1 h
        · exact absurd hc List.not_mem_nil
        · exact List.mem_cons_of_mem _ (ih h hc)
      · rw [List.modifyHead_cons] at h
        obtain rfl | h := List.mem_cons.1 h
        · obtain rfl | hc := List.mem_cons.1 hc
          · exact List.mem_cons_self
          · exact List.mem_cons_of_mem _ (ih List.mem_cons_self hc)
        · exact List.mem_cons_of_mem _ (ih (List.mem_cons_of_mem _ h) hc)

theorem mem_of_mem_splitLine {delimiter c : Char} {line field : List Char}
    (h : field ∈ splitLine delimiter line) (hc : c ∈ field) : c ∈ line := by
  rw [splitLine] at h
  split at h
  · exact absurd h List.not_mem_nil
  · exact List.mem_of_mem_filter (mem_of_mem_splitOn h hc)

theorem splitLine_eq {delimiter : Char} {line : List Char} {c : Char} (hc : c ∈ line) (hne : c ≠ '\n') :
    splitLine delimiter line = (line.filter fun c => c ≠ '\n').splitOn delimiter := by
  refine if_neg fun hnil => ?_
  have hmem : c ∈ line.filter fun c => c ≠ '\n' := List.mem_filter.2 ⟨hc, decide_eq_true hne⟩
  rw [hnil] at hmem
  exact List.not_mem_nil hmem

theorem length_splitLine {delimiter : Char} (hdelimiter : delimiter ≠ '\n') {line : List Char}
    {c : Char} (hc : c ∈ line) (hne : c ≠ '\n') :
    (splitLine delimiter line).length = line.count delimiter + 1 := by
  have hcount : (line.filter fun c => c ≠ '\n').count delimiter = line.count delimiter :=
    List.count_filter (decide_eq_true hdelimiter)
  rw [splitLine_eq hc hne, length_splitOn, hcount]

section
variable {delimiter : Char} {p : Parser} {body : List Char}

/-- No character of the line is special but the delimiter. -/
def Plain (body : List Char) : Prop := ∀ c ∈ body, c ≠ '"' ∧ c ≠ '\n' ∧ c ≠ '\r'

theorem universalNewlines_eq {text : List Char} (h : '\r' ∉ text) : universalNewlines text = text := by
  induction text with
  | nil => rfl
  | cons c rest ih =>
      rw [List.mem_cons, not_or] at h
      have hc : c ≠ '\r' := Ne.symm h.1
      rw [universalNewlines, ih h.2]
      · rintro rest' rfl
        exact absurd rfl hc
      · exact hc

/-- Between two fields, or inside one that is not quoted. -/
def Parser.Open (p : Parser) : Prop := p.state = .startField ∨ p.state = .inField

theorem processChar_of_open (hp : p.Open) {c : Char} (hquote : c ≠ '"')
    (hbreak : Parser.isLineBreak c = false) : p.processChar delimiter c =
      if c = delimiter then .ok (p.saveField .startField) else .ok (p.addChar .inField c) := by
  obtain hstate | hstate := hp
  · simp only [Parser.processChar, hstate, Parser.startOfField, hbreak, hquote,
      Bool.false_eq_true, if_false]
    split <;> rfl
  · simp [Parser.processChar, hstate, hbreak]

theorem isLineBreak_of_plain {c : Char} (h : c ≠ '"' ∧ c ≠ '\n' ∧ c ≠ '\r') :
    Parser.isLineBreak c = false := by
  simp [Parser.isLineBreak, h.2.1, h.2.2]

/-- The fields of a plain stretch follow those before it, the first one continuing the open field. -/
theorem foldlM_of_open (hp : p.Open) (hplain : Plain body) :
    ∃ q, body.foldlM (Parser.processChar delimiter) p = .ok q ∧ q.Open ∧
      q.fields ++ [q.field] = p.fields ++ (body.splitOn delimiter).modifyHead (p.field ++ ·) := by
  induction body generalizing p with
  | nil => exact ⟨p, rfl, hp, by simp⟩
  | cons c body ih =>
      have hc := hplain c List.mem_cons_self
      have hrest : Plain body := fun d hd => hplain d (List.mem_cons_of_mem _ hd)
      obtain ⟨l, ls, hsplit⟩ : ∃ l ls, body.splitOn delimiter = l :: ls :=
        List.exists_cons_of_ne_nil (List.splitOn_ne_nil delimiter body)
      rw [List.foldlM_cons, processChar_of_open hp hc.1 (isLineBreak_of_plain hc),
        List.splitOn_cons_eq_if_modifyHead, hsplit]
      rw [hsplit] at ih
      by_cases hdelimiter : c = delimiter
      · obtain ⟨q, hq, hopen, hfields⟩ :=
          ih (p := p.saveField .startField) (Or.inl rfl) hrest
        refine ⟨q, by rw [if_pos hdelimiter]; exact hq, hopen, hfields.trans ?_⟩
        simp [Parser.saveField, hdelimiter]
      · obtain ⟨q, hq, hopen, hfields⟩ := ih (p := p.addChar .inField c) (Or.inr rfl) hrest
        refine ⟨q, by rw [if_neg hdelimiter]; exact hq, hopen, hfields.trans ?_⟩
        simp [Parser.addChar, hdelimiter]

/-- A plain line is one record. -/
theorem processLine_of_plain (hplain : Plain body) {line : List Char}
    (hline : line = body ∧ body ≠ [] ∨ line = body ++ ['\n']) :
    Parser.reset.processLine delimiter line =
      .ok ⟨.startRecord, [], splitLine delimiter line⟩ := by
  have hfilter : line.filter (fun c => c ≠ '\n') = body := by
    have hbody : body.filter (fun c => c ≠ '\n') = body :=
      List.filter_eq_self.2 fun c hc => by simpa using (hplain c hc).2.1
    obtain ⟨rfl, _⟩ | rfl := hline
    · exact hbody
    · rw [List.filter_append, hbody]
      simp
  rw [Parser.processLine, splitLine, hfilter]
  cases body with
  | nil =>
      obtain ⟨_, hne⟩ | rfl := hline
      · exact absurd rfl hne
      · rfl
  | cons c body =>
      -- the first character is read as after a delimiter
      have hstart : (c :: body).foldlM (Parser.processChar delimiter) Parser.reset =
          (c :: body).foldlM (Parser.processChar delimiter) ⟨.startField, [], []⟩ := by
        rw [List.foldlM_cons, List.foldlM_cons]
        simp [Parser.processChar, Parser.reset, isLineBreak_of_plain (hplain c List.mem_cons_self),
          Parser.startOfField, Parser.saveField, Parser.addChar]
      obtain ⟨q, hq, hopen, hfields⟩ :=
        foldlM_of_open (p := ⟨.startField, [], []⟩) (Or.inl rfl) hplain
      have hend : q.endLine = ⟨.startRecord, [], q.fields ++ [q.field]⟩ := by
        obtain hstate | hstate := hopen <;> rw [Parser.endLine, hstate] <;> rfl
      have hbreak : q.processChar delimiter '\n' = .ok (q.saveField .eatCrnl) := by
        obtain hstate | hstate := hopen <;> rw [Parser.processChar, hstate] <;> rfl
      have hsplit : q.fields ++ [q.field] = (c :: body).splitOn delimiter := by
        rw [hfields]
        cases (c :: body).splitOn delimiter <;> rfl
      rw [if_neg (List.cons_ne_nil c body), ← hsplit]
      obtain ⟨rfl, _⟩ | rfl := hline
      · rw [hstart, hq, ← hend]
        rfl
      · rw [List.foldlM_append, hstart, hq]
        show ((List.foldlM (Parser.processChar delimiter) q ['\n']).map Parser.endLine) = _
        rw [List.foldlM_cons, hbreak]
        rfl

theorem records_of_plain {ls : List (List Char)}
    (h : ∀ line ∈ ls, ∃ body, Plain body ∧ (line = body ∧ body ≠ [] ∨ line = body ++ ['\n'])) :
    records delimiter .reset ls = .ok (ls.map (splitLine delimiter)) := by
  induction ls with
  | nil => rfl
  | cons line ls ih =>
      obtain ⟨body, hplain, hline⟩ := h line List.mem_cons_self
      rw [records, processLine_of_plain hplain hline]
      simp only [bind, Except.bind, if_true]
      rw [ih fun l hl => h l (List.mem_cons_of_mem _ hl)]
      rfl

/-- Text without quotes and carriage returns is read line by line. -/
theorem reader_of_plain {text : List Char} (hquote : '"' ∉ text) (hreturn : '\r' ∉ text) :
    reader delimiter text =
      .ok ((Stdio.lines (fun c => c = '\n') text).map (splitLine delimiter)) := by
  rw [reader, universalNewlines_eq hreturn]
  apply records_of_plain
  intro line hline
  obtain ⟨body, hbody, hends⟩ := Stdio.exists_body_of_mem_lines hline
  have hsub : ∀ c ∈ body, c ∈ text := by
    intro c hc
    have hflat : (Stdio.lines (fun c => c = '\n') text).flatten = text := Stdio.lines_flatten text
    rw [← hflat]
    refine List.mem_flatten.2 ⟨line, hline, ?_⟩
    obtain ⟨rfl, _⟩ | ⟨last, _, rfl⟩ := hends
    · exact hc
    · exact List.mem_append_left _ hc
  refine ⟨body, fun c hc => ⟨?_, ?_, ?_⟩, ?_⟩
  · rintro rfl
    exact hquote (hsub _ hc)
  · simpa using hbody c hc
  · rintro rfl
    exact hreturn (hsub _ hc)
  · obtain h | ⟨last, hlast, h⟩ := hends
    · exact Or.inl h
    · exact Or.inr (by rw [h, of_decide_eq_true hlast])

end

end Csv
