import ServerTrial.Proofs.LuaLexer

/-!
# Reading statements back

Tokens are put together to statements.  What is written for a statement has the tokens of that statement
(`Reader.lexes_statement`), and these give the statement again (`Reader.statement_tokens`); so a block reads back as
the statements it was written from: `Reader.read_blockText`.
-/

namespace ServerTrial.Lua

namespace Reader

/-! ### From tokens to statements -/

/-- Goes on behind certain tokens. -/
def expect : List Token → List Token → Option (List Token)
  | [], ts => some ts
  | t :: want, u :: ts => if t = u then expect want ts else none
  | _ :: _, [] => none

def integer : List Token → Option (Int × List Token)
  | .symbol '-' :: .number n :: ts => some (-n, ts)
  | .number n :: ts => some (n, ts)
  | _ => none

/-- The tokens of a field of a literal, before its value. -/
def field (n : String) : List Token := [.name n, .symbol '=']

def position (ts : List Token) : Option (Position × List Token) := do
  let ts ← expect (.symbol '\x7b' :: field "line") ts
  let (line, ts) ← integer ts
  let ts ← expect (.symbol ',' :: field "character") ts
  let (character, ts) ← integer ts
  let ts ← expect [.symbol '\x7d'] ts
  return (⟨line, character⟩, ts)

def range (ts : List Token) : Option (Range × List Token) := do
  let ts ← expect (.symbol '\x7b' :: field "start") ts
  let (start, ts) ← position ts
  let ts ← expect [.symbol ',', .symbol '[', .text "end", .symbol ']', .symbol '='] ts
  let (stop, ts) ← position ts
  let ts ← expect [.symbol '\x7d'] ts
  return (⟨start, stop⟩, ts)

/-- The tokens of a name with dots, behind its first part. -/
def parts (names : List String) : List Token := names.flatMap fun n => [.symbol '.', .name n]

/-- What is called, behind the name of the editor's interface. -/
def call (ts : List Token) : Option (Expr × List Token) :=
  match expect (parts ["json", "decode"]) ts with
  | some (.symbol '(' :: .text json :: .symbol ')' :: ts) => some (.decoded json, ts)
  | _ =>
    (expect (parts ["lsp", "util", "make_text_document_params"] ++ [.symbol '(', .number 0, .symbol ')']) ts).map
      (.documentParams, ·)

/-- The name of the editor's interface. -/
def interface : String := "vim"

def expression : List Token → Option (Expr × List Token)
  | .symbol '\x7b' :: .symbol '\x7d' :: ts => some (.emptyTable, ts)
  | .symbol '\x7b' :: .name n :: ts =>
    if n = "line" then (position (.symbol '\x7b' :: .name n :: ts)).map fun p => (.position p.1, p.2)
    else (range (.symbol '\x7b' :: .name n :: ts)).map fun p => (.range p.1, p.2)
  | .name n :: .symbol '[' :: .text key :: .symbol ']' :: ts => some (.fieldOf n key, ts)
  | .name n :: .symbol '.' :: ts => if n = interface then call (.symbol '.' :: ts) else none
  | .name n :: ts => some (.name n, ts)
  | _ => none

/-- The name of the function that stops unless something holds. -/
def assertion : String := "assert"

/-- A statement.  No name that has a meaning of its own here may be declared. -/
def statement : List Token → Option (Statement × List Token)
  | .keyword w :: .name n :: .symbol '=' :: ts =>
    if w = "local" ∧ n ≠ interface ∧ n ≠ assertion then (expression ts).map fun e => (.declare n e.1, e.2) else none
  | .name n :: .symbol '(' :: .name table :: .symbol '[' :: .text key :: .symbol ']' :: .equals :: .keyword w ::
      .symbol ',' :: .text _ :: .symbol ')' :: ts =>
    if n = assertion ∧ w = "nil" then some (.guard table key, ts) else none
  | .name table :: .symbol '[' :: .text key :: .symbol ']' :: .symbol '=' :: ts =>
    (expression ts).map fun e => (.assign table key e.1, e.2)
  | _ => none

/-- Statements, at most `fuel` of them. -/
def statements : Nat → List Token → Option (List Statement)
  | _, [] => some []
  | 0, _ :: _ => none
  | fuel + 1, t :: ts =>
    match statement (t :: ts) with
    | some (s, rest) => (statements fuel rest).map (s :: ·)
    | none => none

/-- The statements that a text is written from. -/
def read (text : String) : Option (List Statement) :=
  (tokens text).bind fun ts => statements ts.length ts

/-! ### The tokens of expressions -/

def intTokens (n : Int) : List Token := if n < 0 then [.symbol '-', .number n.natAbs] else [.number n.natAbs]

def positionTokens (p : Position) : List Token :=
  .symbol '\x7b' :: field "line" ++ (intTokens p.line ++ (.symbol ',' :: field "character" ++
    (intTokens p.character ++ [.symbol '\x7d'])))

def rangeTokens (r : Range) : List Token :=
  .symbol '\x7b' :: field "start" ++ (positionTokens r.start ++
    ([.symbol ',', .symbol '[', .text "end", .symbol ']', .symbol '='] ++ (positionTokens r.stop ++ [.symbol '\x7d'])))

def expressionTokens : Expr → List Token
  | .documentParams =>
    .name interface :: parts ["lsp", "util", "make_text_document_params"] ++ [.symbol '(', .number 0, .symbol ')']
  | .position p => positionTokens p
  | .range r => rangeTokens r
  | .decoded json => .name interface :: parts ["json", "decode"] ++ [.symbol '(', .text json, .symbol ')']
  | .name n => [.name n]
  | .fieldOf n key => [.name n, .symbol '[', .text key, .symbol ']']
  | .emptyTable => [.symbol '\x7b', .symbol '\x7d']

/-- Reading gives certain tokens in front of a character that no name goes on with. -/
def Lexes (cs : List Char) (ts : List Token) : Prop :=
  ∀ c rest, isWordChar c = false →
    lex .idle (cs ++ c :: rest) = (lex .idle (c :: rest)).map (ts ++ ·)

theorem lexes_int (n : Int) : Lexes (toString n).toList (intTokens n) := by
  intro c rest ends
  obtain ⟨d, ds, written⟩ := List.exists_cons_of_ne_nil (Nat.toDigits_ne_nil (n := n.natAbs) (b := 10))
  have minus : d ≠ '-' := by
    rintro rfl
    exact absurd (Json.digits_toDigits n.natAbs '-' (written ▸ List.mem_cons_self)) (by decide)
  have natural := lex_natural n.natAbs ends rest
  rw [Json.toList_toString, intTokens]
  by_cases negative : n < 0
  · rw [decide_eq_true negative, if_pos negative, Json.signChars, if_pos rfl, List.append_assoc,
      List.singleton_append, written, List.cons_append, lex_minus minus, ← List.cons_append, ← written, natural,
      Option.map_map]
    rfl
  · rw [decide_eq_false negative, if_neg negative, Json.signChars, if_neg Bool.false_ne_true, List.nil_append, natural]
    rfl

theorem lexes_position (p : Position) : Lexes (Expr.positionText p).toList (positionTokens p) := by
  intro c rest ends
  have opening : "\x7b line = ".toList = '\x7b' :: ' ' :: ("line".toList ++ ' ' :: '=' :: ' ' :: []) := by rfl
  have middle : ", character = ".toList = ',' :: ' ' :: ("character".toList ++ ' ' :: '=' :: ' ' :: []) := by rfl
  have ending : " \x7d".toList = ' ' :: '\x7d' :: [] := by rfl
  have line : IsName "line" := .literal rfl rfl (by decide)
  have character : IsName "character" := .literal rfl rfl (by decide)
  rw [Expr.positionText]
  simp only [String.toList_append, opening, middle, ending, List.append_assoc, List.cons_append, List.nil_append]
  rw [lex_symbol rfl, lex_blank, lex_name line rfl, lex_blank, lex_equal (by decide), lex_blank,
    lexes_int p.line ',' _ rfl, lex_symbol rfl, lex_blank, lex_name character rfl, lex_blank,
    lex_equal (by decide), lex_blank, lexes_int p.character ' ' _ rfl, lex_blank, lex_symbol rfl]
  simp [positionTokens, field, Option.map_map, Function.comp_def]

/-! The texts of expressions, one equation for each form. -/

theorem text_range (r : Range) : (Expr.range r).text =
    "\x7b start = " ++ Expr.positionText r.start ++ ", ['end'] = " ++ Expr.positionText r.stop ++ " \x7d" := rfl

theorem text_fieldOf (n key : String) : (Expr.fieldOf n key).text = n ++ "[" ++ quoted key ++ "]" := rfl

theorem text_decoded (json : String) : (Expr.decoded json).text = "vim.json.decode(" ++ longString json ++ ")" := rfl

theorem text_documentParams : Expr.documentParams.text = "vim.lsp.util.make_text_document_params(0)" := rfl

theorem text_emptyTable : Expr.emptyTable.text = "\x7b\x7d" := rfl

/-- The key of the end of a range. -/
theorem lex_end (cs : List Char) :
    lex .idle ('\'' :: 'e' :: 'n' :: 'd' :: '\'' :: cs) = (lex .idle cs).map (.text "end" :: ·) := by
  rw [lex_silent (.quoted '\'' []) rfl, lex_silent (.quoted '\'' [0x65]) rfl,
    lex_silent (.quoted '\'' [0x65, 0x6E]) rfl, lex_silent (.quoted '\'' [0x65, 0x6E, 0x64]) rfl]
  exact lex_ends rfl cs

theorem lexes_range (r : Range) : Lexes (Expr.range r).text.toList (rangeTokens r) := by
  intro c rest ends
  have opening : "\x7b start = ".toList = '\x7b' :: ' ' :: ("start".toList ++ ' ' :: '=' :: ' ' :: []) := by rfl
  have middle : ", ['end'] = ".toList =
      ',' :: ' ' :: '[' :: '\'' :: 'e' :: 'n' :: 'd' :: '\'' :: ']' :: ' ' :: '=' :: ' ' :: [] := by rfl
  have ending : " \x7d".toList = ' ' :: '\x7d' :: [] := by rfl
  have start : IsName "start" := .literal rfl rfl (by decide)
  rw [text_range]
  simp only [String.toList_append, opening, middle, ending, List.append_assoc, List.cons_append, List.nil_append]
  rw [lex_symbol rfl, lex_blank, lex_name start rfl, lex_blank, lex_equal (by decide), lex_blank,
    lexes_position r.start ',' _ rfl, lex_symbol rfl, lex_blank, lex_bracket (by decide) (by decide), lex_end,
    lex_symbol rfl, lex_blank, lex_equal (by decide), lex_blank, lexes_position r.stop ' ' _ rfl, lex_blank,
    lex_symbol rfl]
  simp [rangeTokens, field, Option.map_map, Function.comp_def]

/-- An entry of a table, as far as the bracket behind its key. -/
theorem lex_index {n : String} (name : IsName n) (key : String) (cs : List Char) :
    lex .idle (n.toList ++ ('[' :: ((quoted key).toList ++ ']' :: cs))) =
      (lex .idle cs).map ([.name n, .symbol '[', .text key, .symbol ']'] ++ ·) := by
  have mark : ∃ rest, (quoted key).toList = '"' :: rest := ⟨_, toList_quoted key⟩
  obtain ⟨rest, written⟩ := mark
  have text := lex_quoted key (']' :: cs)
  rw [lex_name name rfl, written] at *
  rw [List.cons_append, lex_bracket (by decide) (by decide), ← List.cons_append, text, lex_symbol rfl]
  simp [Option.map_map, Function.comp_def]

/-- What the names in an expression and its JSON text have to be. -/
def Sound : Expr → Prop
  | .decoded json => '\r' ∉ json.toList
  | .name n => IsName n
  | .fieldOf n _ => IsName n
  | _ => True

theorem isName_interface : IsName interface := .literal rfl rfl (by decide)

/-- **Expressions are read as their tokens.** -/
theorem lexes_expression {e : Expr} (sound : Sound e) : Lexes e.text.toList (expressionTokens e) := by
  cases e with
  | position p => exact lexes_position p
  | range r => exact lexes_range r
  | name n =>
    intro c rest ends
    exact lex_name sound ends rest
  | emptyTable =>
    intro c rest ends
    have text : "\x7b\x7d".toList = ['\x7b', '\x7d'] := by rfl
    rw [text_emptyTable, text, List.cons_append, lex_symbol rfl, List.cons_append, lex_symbol rfl, Option.map_map]
    rfl
  | fieldOf n key =>
    intro c rest ends
    have opening : "[".toList = ['['] := by rfl
    have ending : "]".toList = [']'] := by rfl
    rw [text_fieldOf]
    simp only [String.toList_append, opening, ending, List.append_assoc, List.cons_append, List.nil_append]
    exact lex_index sound key _
  | decoded json =>
    intro c rest ends
    have opening : "vim.json.decode(".toList =
        interface.toList ++ '.' :: ("json".toList ++ '.' :: ("decode".toList ++ '(' :: [])) := by rfl
    have ending : ")".toList = [')'] := by rfl
    have jsonName : IsName "json" := .literal rfl rfl (by decide)
    have decodeName : IsName "decode" := .literal rfl rfl (by decide)
    rw [text_decoded]
    simp only [String.toList_append, opening, ending, List.append_assoc, List.cons_append, List.nil_append]
    rw [lex_name isName_interface rfl, lex_symbol rfl, lex_name jsonName rfl, lex_symbol rfl, lex_name decodeName rfl,
      lex_symbol rfl, lex_longString sound, lex_symbol rfl]
    simp [expressionTokens, parts, Option.map_map, Function.comp_def]
  | documentParams =>
    intro c rest ends
    have text : "vim.lsp.util.make_text_document_params(0)".toList = interface.toList ++ '.' :: ("lsp".toList ++
        '.' :: ("util".toList ++ '.' :: ("make_text_document_params".toList ++
          '(' :: (Nat.toDigits 10 0 ++ ')' :: [])))) := by rfl
    have lsp : IsName "lsp" := .literal rfl rfl (by decide)
    have util : IsName "util" := .literal rfl rfl (by decide)
    have make : IsName "make_text_document_params" := .literal rfl rfl (by decide)
    rw [text_documentParams, text]
    simp only [List.append_assoc, List.cons_append, List.nil_append]
    rw [lex_name isName_interface rfl, lex_symbol rfl, lex_name lsp rfl, lex_symbol rfl, lex_name util rfl,
      lex_symbol rfl, lex_name make rfl, lex_symbol rfl, lex_natural 0 rfl, lex_symbol rfl]
    simp [expressionTokens, parts, Option.map_map, Function.comp_def]

/-! ### The tokens of statements -/

def statementTokens : Statement → List Token
  | .guard table key =>
    [.name assertion, .symbol '(', .name table, .symbol '[', .text key, .symbol ']', .equals, .keyword "nil",
      .symbol ',', .text (table ++ "." ++ key ++ " is already set"), .symbol ')']
  | .assign table key value =>
    [.name table, .symbol '[', .text key, .symbol ']', .symbol '='] ++ expressionTokens value
  | .declare n value => [.keyword "local", .name n, .symbol '='] ++ expressionTokens value

/-- What the names in a statement have to be. -/
def Statement.Sound : Statement → Prop
  | .guard table _ => IsName table
  | .assign table _ value => IsName table ∧ Reader.Sound value
  | .declare n value => IsName n ∧ n ≠ interface ∧ n ≠ assertion ∧ Reader.Sound value

theorem isName_assertion : IsName assertion := .literal rfl rfl (by decide)

theorem text_guard (table key : String) : (Statement.guard table key).text =
    "assert(" ++ table ++ "[" ++ quoted key ++ "] == nil, " ++ quoted (table ++ "." ++ key ++ " is already set") ++
      ")" := rfl

theorem text_assign (table key : String) (value : Expr) :
    (Statement.assign table key value).text = table ++ "[" ++ quoted key ++ "] = " ++ value.text := rfl

theorem text_declare (n : String) (value : Expr) :
    (Statement.declare n value).text = "local " ++ n ++ " = " ++ value.text := rfl

/-- **Statements are read as their tokens.** -/
theorem lexes_statement {s : Statement} (sound : Statement.Sound s) : Lexes s.text.toList (statementTokens s) := by
  intro c rest ends
  have opening : "[".toList = ['['] := by rfl
  cases s with
  | guard table key =>
    have assert : "assert(".toList = assertion.toList ++ ['('] := by rfl
    have compared : "] == nil, ".toList =
        ']' :: ' ' :: '=' :: '=' :: ' ' :: 'n' :: (['i', 'l'] ++ ',' :: ' ' :: []) := by rfl
    have ending : ")".toList = [')'] := by rfl
    have unset : ∀ cs, lex .idle ('n' :: (['i', 'l'] ++ ',' :: cs)) =
        (lex .idle (',' :: cs)).map (.keyword "nil" :: ·) := lex_keyword rfl rfl (by decide) rfl
    rw [text_guard]
    simp only [String.toList_append, ending, assert, opening, compared, List.append_assoc, List.cons_append,
      List.nil_append] at unset ⊢
    rw [lex_name isName_assertion rfl, lex_symbol rfl, lex_index sound, lex_blank, lex_equals, lex_blank, unset,
      lex_symbol rfl, lex_blank, lex_quoted, lex_symbol rfl]
    simp [statementTokens, Option.map_map, Function.comp_def]
  | assign table key value =>
    have assigned : "] = ".toList = ']' :: ' ' :: '=' :: ' ' :: [] := by rfl
    rw [text_assign]
    simp only [String.toList_append, opening, assigned, List.append_assoc, List.cons_append, List.nil_append]
    rw [lex_index sound.1, lex_blank, lex_equal (by decide), lex_blank, lexes_expression sound.2 c rest ends]
    simp [statementTokens, Option.map_map, Function.comp_def]
  | declare n value =>
    have declaration : "local ".toList = 'l' :: (['o', 'c', 'a', 'l'] ++ ' ' :: []) := by rfl
    have assigned : " = ".toList = ' ' :: '=' :: ' ' :: [] := by rfl
    have word : ∀ cs, lex .idle ('l' :: (['o', 'c', 'a', 'l'] ++ ' ' :: cs)) =
        (lex .idle (' ' :: cs)).map (.keyword "local" :: ·) := lex_keyword rfl rfl (by decide) rfl
    rw [text_declare]
    simp only [String.toList_append, declaration, assigned, List.append_assoc, List.cons_append, List.nil_append]
    simp only [List.cons_append, List.nil_append] at word
    rw [word, lex_blank, lex_name sound.1 rfl, lex_blank, lex_equal (by decide), lex_blank,
      lexes_expression sound.2.2.2 c rest ends]
    simp [statementTokens, Option.map_map, Function.comp_def]

/-! #### Tokens to statements -/

theorem expect_append (want ts : List Token) : expect want (want ++ ts) = some ts := by
  induction want with
  | nil => rfl
  | cons t want ih => rw [List.cons_append, expect, if_pos rfl, ih]

theorem integer_tokens (n : Int) (ts : List Token) : integer (intTokens n ++ ts) = some (n, ts) := by
  unfold intTokens
  split
  next negative =>
    have value : -(n.natAbs : Int) = n := by omega
    rw [List.cons_append, List.cons_append, integer, value, List.nil_append]
  next nonneg =>
    have value : (n.natAbs : Int) = n := by omega
    rw [List.cons_append, integer, value, List.nil_append]

theorem position_tokens (p : Position) (ts : List Token) : position (positionTokens p ++ ts) = some (p, ts) := by
  unfold position positionTokens
  simp only [List.append_assoc, expect_append, Option.bind_eq_bind, Option.bind_some, integer_tokens]
  rfl

theorem range_tokens (r : Range) (ts : List Token) : range (rangeTokens r ++ ts) = some (r, ts) := by
  unfold range rangeTokens
  simp only [List.append_assoc, expect_append, Option.bind_eq_bind, Option.bind_some, position_tokens]
  rfl

/-- What may stand behind an expression: nothing, or another statement. -/
inductive Begins : List Token → Prop where
  | nil : Begins []
  | name (n : String) (ts : List Token) : Begins (.name n :: ts)
  | keyword (w : String) (ts : List Token) : Begins (.keyword w :: ts)

theorem expression_tokens (e : Expr) {ts : List Token} (begins : Begins ts) :
    expression (expressionTokens e ++ ts) = some (e, ts) := by
  cases e with
  | documentParams => rfl
  | position p =>
    have literal : expression (positionTokens p ++ ts) =
        (position (positionTokens p ++ ts)).map fun q => (.position q.1, q.2) := rfl
    rw [expressionTokens, literal, position_tokens]
    rfl
  | range r =>
    have literal : expression (rangeTokens r ++ ts) =
        (range (rangeTokens r ++ ts)).map fun q => (.range q.1, q.2) := rfl
    rw [expressionTokens, literal, range_tokens]
    rfl
  | decoded json => rfl
  | name n => cases begins <;> rfl
  | fieldOf n key => rfl
  | emptyTable => rfl

theorem statement_tokens {s : Statement} (sound : Statement.Sound s) {ts : List Token} (begins : Begins ts) :
    statement (statementTokens s ++ ts) = some (s, ts) := by
  cases s with
  | guard table key => rfl
  | assign table key value =>
    have read : statement (statementTokens (.assign table key value) ++ ts) =
        (expression (expressionTokens value ++ ts)).map fun e => (.assign table key e.1, e.2) := rfl
    rw [read, expression_tokens value begins]
    rfl
  | declare n value =>
    have read : statement (statementTokens (.declare n value) ++ ts) =
        if "local" = "local" ∧ n ≠ interface ∧ n ≠ assertion then
          (expression (expressionTokens value ++ ts)).map fun e => (.declare n e.1, e.2) else none := rfl
    rw [read, if_pos ⟨rfl, sound.2.1, sound.2.2.1⟩, expression_tokens value begins]
    rfl

theorem begins_statement (s : Statement) (ts : List Token) : Begins (statementTokens s ++ ts) := by
  cases s with
  | guard table key => exact .name _ _
  | assign table key value => exact .name _ _
  | declare n value => exact .keyword _ _

theorem begins_statements (ss : List Statement) : Begins (ss.flatMap statementTokens) := by
  cases ss with
  | nil => exact .nil
  | cons s ss => exact begins_statement s _

/-- Tokens of statements are put together to the statements again. -/
theorem statements_tokens {ss : List Statement} (sound : ∀ s ∈ ss, Statement.Sound s) {fuel : Nat}
    (enough : ss.length ≤ fuel) : statements fuel (ss.flatMap statementTokens) = some ss := by
  induction ss generalizing fuel with
  | nil => cases fuel <;> rfl
  | cons s ss ih =>
    obtain ⟨first, sound⟩ := List.forall_mem_cons.1 sound
    obtain ⟨fuel, rfl⟩ := Nat.exists_eq_succ_of_ne_zero (Nat.ne_zero_of_lt (Nat.lt_of_lt_of_le (Nat.succ_pos _) enough))
    have read := statement_tokens first (begins_statements ss)
    have some' : ∃ t ts, statementTokens s ++ ss.flatMap statementTokens = t :: ts := by
      cases s <;> exact ⟨_, _, rfl⟩
    obtain ⟨t, ts, written⟩ := some'
    rw [List.flatMap_cons]
    rw [written] at read ⊢
    rw [statements, read]
    dsimp only
    rw [ih sound (Nat.le_of_succ_le_succ enough)]
    rfl

theorem length_le_tokens (ss : List Statement) : ss.length ≤ (ss.flatMap statementTokens).length := by
  induction ss with
  | nil => exact Nat.le_refl _
  | cons s ss ih =>
    have some' : 0 < (statementTokens s).length := by cases s <;> exact Nat.succ_pos _
    rw [List.flatMap_cons, List.length_append, List.length_cons]
    omega

/-- The lines of a block, with a line feed behind each. -/
theorem lex_lines {ss : List Statement} (sound : ∀ s ∈ ss, Statement.Sound s) :
    lex .idle (ss.flatMap fun s => ("    " ++ s.text).toList ++ ['\n']) = some (ss.flatMap statementTokens) := by
  have indent : "    ".toList = [' ', ' ', ' ', ' '] := by rfl
  induction ss with
  | nil => rfl
  | cons s ss ih =>
    obtain ⟨first, sound⟩ := List.forall_mem_cons.1 sound
    rw [List.flatMap_cons, String.toList_append, indent]
    simp only [List.append_assoc, List.cons_append, List.nil_append]
    rw [lex_blank, lex_blank, lex_blank, lex_blank, lexes_statement first '\n' _ rfl, lex_newline, ih sound,
      List.flatMap_cons]
    rfl

/-- **A block reads back as the statements it was written from.** -/
theorem read_blockText {ss : List Statement} (sound : ∀ s ∈ ss, Statement.Sound s) : read (blockText ss) = some ss := by
  have text : lex .idle ((blockText ss).toList ++ ['\n']) = some (ss.flatMap statementTokens) := by
    have feed : "\n".toList = ['\n'] := by rfl
    rw [← lex_lines sound, blockText, String.toList_intercalate, feed]
    cases ss with
    | nil => rfl
    | cons s ss =>
      rw [List.map_cons, List.map_cons, intercalate_concat, List.flatMap_cons, List.flatMap_cons, List.flatMap_map,
        List.flatMap_map]
  rw [read, tokens, text, Option.bind_some, statements_tokens sound (length_le_tokens ss)]

end Reader

end ServerTrial.Lua
